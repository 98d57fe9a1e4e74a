/-
  What a builder assembles.

  A program of calls on a builder emits primitives, each under the line that is in force.  When
  the builder then builds, nothing that was emitted is lost: the primitives are cut into
  instructions, each instruction is written where it was laid out, and decoding finds it there
  again.

  * `BuilderCall`, `emitted`: programs, and the primitives and lines that they emit;
  * `assemble_holds`: what a builder holds after a program;
  * `CodeBuilder.Laid`, `CodeBuilder.laid_of_grouped`: instructions in their places;
  * **`attributed_of_laid`**: the instructions that are decoded hold what was laid out.
-/
import TieredMachine.Code.Builder
import TieredMachine.Proofs.Code.RoundTrip
import TieredMachine.Proofs.Code.Tiling

namespace TieredMachine

/-! ## Programs -/

/-- An entry in one of the tables of a builder. -/
inductive Entered where
  | «local» (x : String)
  | name (x : String)
  | const (v : Value)
  | cell (x : String)

/-- The builder with the entry, and the place of it. -/
def Entered.place (b : CodeBuilder) : Entered → CodeBuilder × Nat
  | «local» x => b.localSlot x
  | name x => b.nameIndex x
  | const v => b.constant v
  | cell x => b.cellIndex x

/-- A call on a builder.  Loads of constants, comparisons, calls and slices are emissions. -/
inductive BuilderCall where
  | args (names : List String)
  | varargs (name : String)
  | varkeywords (name : String)
  | flag (f : CodeFlags)
  | cellvar (name : String)
  | freevar (name : String)
  | line (n : Nat)
  | fuse (on : Bool)
  | enter (e : Entered)
  | label
  | bindLabel (l : Nat)
  | emit (op : Opcode)
  | emitArg (op : Opcode) (arg : Nat)
  | emitAt (op : Opcode) (e : Entered)
  | jump (op : Opcode) (l : Nat)

namespace BuilderCall

/-- The builder after a call. -/
def run (b : CodeBuilder) : BuilderCall → CodeBuilder
  | args names => b.args names
  | varargs name => b.varargs name
  | varkeywords name => b.varkeywords name
  | flag f => b.flag f
  | cellvar name => b.cellvar name
  | freevar name => b.freevar name
  | line n => b.setLine n
  | fuse on => b.setFuse on
  | enter e => (e.place b).1
  | label => b.label.1
  | bindLabel l => b.bindLabel l
  | emit op => b.emit op
  | emitArg op arg => b.emitArg op arg
  | emitAt op e => CodeBuilder.emitAt op (e.place b)
  | jump op l => b.jump op l

/-- The primitive that a call emits. -/
def emission? : BuilderCall → Option Opcode
  | emit op | emitArg op _ | emitAt op _ | jump op _ => some op
  | _ => none

/-- The line that is in force after a call. -/
def lineAfter (n : Nat) : BuilderCall → Nat
  | line n' => n'
  | _ => n

end BuilderCall

/-- The primitives that a program emits, each with the line in force. -/
def emitted (n : Nat) : List BuilderCall → List (Opcode × Nat)
  | [] => []
  | c :: cs => c.emission?.toList.map (·, n) ++ emitted (c.lineAfter n) cs

/-- The builder of a unit after a program. -/
def assemble (name : String) (calls : List BuilderCall) : CodeBuilder :=
  calls.foldl BuilderCall.run (.new name)

/-! ## What a builder holds -/

/-- A draft whose opcode is a primitive, with an argument exactly when it takes one. -/
def Draft.Sound (d : Draft) : Prop :=
  d.op.isSuper = false ∧ (d.arg = .none ↔ d.op.hasArg = false)

namespace CodeBuilder

variable {b b' : CodeBuilder} {more : List (Opcode × Nat)}

/-- An error that is noted, or was noted before, stays. -/
theorem of_fail {e : CodeError} (ok : (b.fail e).error = none) : b.error = none := by
  unfold fail at ok
  cases known : b.error with
  | none => rfl
  | some e' =>
    rw [known] at ok
    cases ok

theorem error_fail (b : CodeBuilder) (e : CodeError) : (b.fail e).error ≠ none := by
  unfold fail
  cases b.error <;> exact Option.some_ne_none _

/-- The builder has collected some primitives and lines more. -/
structure Adds (b b' : CodeBuilder) (more : List (Opcode × Nat)) : Prop where
  prims : ∃ drafts, b'.prims.toList = b.prims.toList ++ drafts ∧
    drafts.map (fun d => (d.op, d.line)) = more ∧ (b'.error = none → ∀ d ∈ drafts, d.Sound)
  error : b'.error = none → b.error = none

namespace Adds

theorem refl (b : CodeBuilder) : Adds b b [] where
  prims := ⟨[], (List.append_nil _).symm, rfl, nofun⟩
  error := id

/-- A call that only changes tables or settings. -/
theorem of_prims (prims : b'.prims = b.prims) (error : b'.error = none → b.error = none) :
    Adds b b' [] where
  prims := ⟨[], by rw [prims, List.append_nil], rfl, nofun⟩
  error := error

theorem trans {b'' : CodeBuilder} {more' : List (Opcode × Nat)} (h : Adds b b' more)
    (h' : Adds b' b'' more') : Adds b b'' (more ++ more') := by
  obtain ⟨ds, hds, rfl, sound⟩ := h.prims
  obtain ⟨ds', hds', rfl, sound'⟩ := h'.prims
  refine ⟨⟨ds ++ ds', by rw [hds', hds, List.append_assoc], List.map_append, fun ok d hd => ?_⟩,
    fun ok => h.error (h'.error ok)⟩
  rcases List.mem_append.mp hd with hd | hd
  · exact sound (h'.error ok) d hd
  · exact sound' ok d hd

/-- A primitive is added, and an error noted when a condition holds. -/
theorem push {op : Opcode} {arg : Operand} {c : Bool}
    (sound : c = false → (⟨op, arg, b.line⟩ : Draft).Sound) :
    Adds b ((b.mismatchIf c op).push op arg) [(op, b.line)] := by
  cases c with
  | true =>
    have failed : (b.fail (.argumentMismatch op)).error ≠ none := error_fail b _
    exact ⟨⟨[⟨op, arg, b.line⟩], Array.toList_push, rfl, fun ok => absurd ok failed⟩, of_fail⟩
  | false =>
    refine ⟨⟨[⟨op, arg, b.line⟩], Array.toList_push, rfl, fun _ d hd => ?_⟩, id⟩
    cases List.mem_singleton.mp hd
    exact sound rfl

end Adds

theorem place_adds (e : Entered) (b : CodeBuilder) :
    Adds b (e.place b).1 [] ∧ (e.place b).1.line = b.line := by
  cases e with
  | «local» x => exact ⟨.of_prims rfl id, rfl⟩
  | name x => exact ⟨.of_prims rfl id, rfl⟩
  | const v =>
    simp only [Entered.place, constant]
    split
    · exact ⟨.refl b, rfl⟩
    · exact ⟨.of_prims rfl id, rfl⟩
  | cell x =>
    simp only [Entered.place, cellIndex]
    split
    · exact ⟨.refl b, rfl⟩
    · split
      · exact ⟨.refl b, rfl⟩
      · exact ⟨.of_prims rfl of_fail, rfl⟩

theorem args_adds (names : List String) (b : CodeBuilder) :
    Adds b (b.args names) [] ∧ (b.args names).line = b.line := by
  have slots (b : CodeBuilder) : Adds b (names.foldl (fun b n => (b.localSlot n).1) b) [] ∧
      (names.foldl (fun b n => (b.localSlot n).1) b).line = b.line := by
    induction names generalizing b with
    | nil => exact ⟨.refl b, rfl⟩
    | cons n ns ih =>
      obtain ⟨adds, line⟩ := ih (b.localSlot n).1
      have entered : Adds b (b.localSlot n).1 [] := .of_prims rfl id
      have all := entered.trans adds
      exact ⟨all, line⟩
  obtain ⟨adds, line⟩ := slots b
  exact ⟨adds.trans (.of_prims rfl id), line⟩

end CodeBuilder

open CodeBuilder

theorem Opcode.not_isSuper_of_hasArg {op : Opcode} (h : op.hasArg = true) : op.isSuper = false := by
  cases op <;> first | rfl | cases h

theorem Opcode.hasArg_of_isTarget {op : Opcode}
    (h : (op.argKind != .relJump && op.argKind != .absJump) = false) : op.hasArg = true := by
  cases op <;> first | rfl | cases h

/-- Every opcode stands for some primitive. -/
theorem Opcode.primitives_ne_nil (op : Opcode) : op.primitives ≠ [] := by
  cases h : op.isSuper with
  | true =>
    have two := Opcode.two_le_of_isSuper h
    exact List.ne_nil_of_length_pos (by omega)
  | false =>
    rw [Opcode.primitives_of_not_isSuper h]
    exact List.cons_ne_nil op []

theorem Draft.Sound.of_hasArg {d : Draft} (h : d.op.hasArg = true) (arg : d.arg ≠ .none) :
    d.Sound :=
  ⟨Opcode.not_isSuper_of_hasArg h, fun none => absurd none arg,
    fun none => absurd (h.symm.trans none) nofun⟩

theorem CodeBuilder.line_push {b : CodeBuilder} {c : Bool} {op op' : Opcode} {arg : Operand} :
    ((b.mismatchIf c op).push op' arg).line = b.line := by
  cases c <;> rfl

theorem emitArg_adds (op : Opcode) (arg : Nat) (b : CodeBuilder) :
    Adds b (b.emitArg op arg) [(op, b.line)] ∧ (b.emitArg op arg).line = b.line :=
  ⟨.push fun fine => .of_hasArg (by simpa using fine) nofun, line_push⟩

/-- What a call adds, and the line after it. -/
theorem BuilderCall.run_adds (c : BuilderCall) (b : CodeBuilder) :
    Adds b (c.run b) (c.emission?.toList.map (·, b.line)) ∧ (c.run b).line = c.lineAfter b.line := by
  cases c with
  | args names => exact args_adds names b
  | varargs | varkeywords | flag | cellvar | freevar | label | bindLabel =>
    exact ⟨.of_prims rfl id, rfl⟩
  | line n => exact ⟨.of_prims rfl id, rfl⟩
  | fuse on => exact ⟨.of_prims rfl id, rfl⟩
  | enter e => exact place_adds e b
  | emit op =>
    refine ⟨.push fun fine => ?_, line_push⟩
    obtain ⟨bare, simple⟩ := Bool.or_eq_false_iff.mp fine
    exact ⟨simple, fun _ => bare, fun _ => rfl⟩
  | emitArg op arg => exact emitArg_adds op arg b
  | emitAt op e =>
    obtain ⟨entered, line⟩ := place_adds e b
    obtain ⟨adds, line'⟩ := emitArg_adds op (e.place b).2 (e.place b).1
    rw [line] at adds line'
    exact ⟨entered.trans adds, line'⟩
  | jump op l =>
    exact ⟨.push fun fine => .of_hasArg (Opcode.hasArg_of_isTarget fine) nofun, line_push⟩

/-- What a program adds. -/
theorem foldl_run_adds (calls : List BuilderCall) (b : CodeBuilder) :
    Adds b (calls.foldl BuilderCall.run b) (emitted b.line calls) := by
  induction calls generalizing b with
  | nil => exact .refl b
  | cons c cs ih =>
    obtain ⟨first, line⟩ := c.run_adds b
    have rest := ih (c.run b)
    rw [line] at rest
    exact first.trans rest

/-- What a builder holds after a program: the primitives that were emitted, under their
    lines, and all of them sound if nothing went wrong. -/
theorem assemble_holds (name : String) (calls : List BuilderCall) :
    (assemble name calls).prims.toList.map (fun d => (d.op, d.line)) = emitted 1 calls ∧
      ((assemble name calls).error = none → ∀ d ∈ (assemble name calls).prims.toList, d.Sound) := by
  obtain ⟨drafts, held, lines, sound⟩ := (foldl_run_adds calls (.new name)).prims
  rw [show (assemble name calls).prims.toList = drafts from held]
  exact ⟨lines, sound⟩

/-! ## Primitives in their places -/

namespace CodeBuilder

/-- Primitives laid out from an index on: every instruction holds what its opcode expands to,
    and the next one starts behind it. -/
inductive Laid : Nat → List Draft → List Placed → Prop
  | nil {start} : Laid start [] []
  | cons {p : Placed} {rest ps} : p.prims.map (·.op) = p.op.primitives →
      p.stop = p.start + p.op.length → Laid p.stop rest ps →
      Laid p.start (p.prims ++ rest) (p :: ps)

/-- The primitives of an instruction take as many arguments as its opcode. -/
theorem length_filter_hasArg {op : Opcode} {mine : List Draft}
    (h : mine.map (·.op) = op.primitives) :
    (mine.filter (·.op.hasArg)).length = op.argCount := by
  rw [Opcode.argCount, ← h, List.filter_map, List.length_map]
  rfl

theorem laid_of_grouped {isPlace : Nat → Bool} {i : Nat} {gs : List (Opcode × Nat)}
    {prims : List Draft} (h : Code.Grouped isPlace i gs (prims.map (·.op)))
    (sound : ∀ d ∈ prims, d.Sound) (start : Nat) : Laid start prims (place start gs prims) := by
  generalize hops : prims.map (·.op) = ops at h
  have stop (start : Nat) {op : Opcode} {mine : List Draft} (hm : mine.map (·.op) = op.primitives) :
      start + 1 + (mine.filter (·.op.hasArg)).length = start + op.length := by
    rw [length_filter_hasArg hm, Opcode.length, Nat.add_assoc]
  induction h generalizing prims start with
  | nil =>
    rw [List.map_eq_nil_iff] at hops
    subst hops
    exact .nil
  | single _ ih =>
    obtain ⟨d, ds, rfl, rfl, hds⟩ := List.map_eq_cons_iff.mp hops
    obtain ⟨simple, soundDs⟩ := List.forall_mem_cons.mp sound
    have alone : [d].map (·.op) = d.op.primitives :=
      (Opcode.primitives_of_not_isSuper simple.1).symm
    exact .cons (p := ⟨d.op, [d], start, _⟩) alone (stop start alone) (ih soundDs _ hds)
  | fused _ _ _ ih =>
    obtain ⟨mine, rest, rfl, hm, hr⟩ := List.map_eq_append_iff.mp hops
    have len := congrArg List.length hm
    rw [List.length_map] at len
    rw [place, ← len, List.take_left, List.drop_left]
    exact .cons (p := ⟨_, mine, start, _⟩) hm (stop start hm)
      (ih (fun d hd => sound d (List.mem_append_right _ hd)) _ hr)

/-- A primitive gets an argument word when it takes an argument. -/
theorem length_of_resolve {labels : Array (Option Nat)} {at_ : Array Nat} {i : Placed} {d : Draft}
    (sound : d.Sound) {ws : List Word}
    (h : (do
      match ← resolve labels at_ i d with
      | Option.none => pure []
      | some arg => return [← Word.ofArg arg]) = .ok ws) :
    ws.length = ([d].filter (·.op.hasArg)).length := by
  obtain ⟨arg, resolved, h⟩ := except_bind_ok.mp h
  have taken : arg = none ↔ d.arg = .none := by
    unfold resolve at resolved
    split at resolved
    · rename_i bare
      cases resolved
      exact ⟨fun _ => bare, fun _ => rfl⟩
    · rename_i n valued
      cases resolved
      exact ⟨nofun, fun bare => by rw [bare] at valued; cases valued⟩
    · rename_i l labelled
      have some' : arg ≠ none := by
        split at resolved
        · cases resolved
        · dsimp only at resolved
          split at resolved
          · split at resolved <;> cases resolved
            exact Option.some_ne_none _
          · cases resolved
            exact Option.some_ne_none _
      exact ⟨fun none => absurd none some', fun bare => by rw [bare] at labelled; cases labelled⟩
  cases arg with
  | none =>
    cases h
    rw [List.filter_cons, sound.2.mp (taken.mp rfl)]
    rfl
  | some arg =>
    obtain ⟨w, -, h⟩ := except_bind_ok.mp h
    cases h
    have takes : d.op.hasArg = true :=
      Bool.of_not_eq_false fun bare => nomatch taken.mpr (sound.2.mpr bare)
    rw [List.filter_cons, takes]
    rfl

/-- The words of an instruction: that of its opcode, and those of the arguments. -/
theorem words_of_placedWords {labels : Array (Option Nat)} {at_ : Array Nat} {p : Placed}
    {ws : List Word} (hp : p.prims.map (·.op) = p.op.primitives) (sound : ∀ d ∈ p.prims, d.Sound)
    (h : placedWords labels at_ p = .ok ws) :
    ws.head? = some (.ofOpcode p.op) ∧ ws.length = p.op.length := by
  obtain ⟨args, read, h'⟩ := except_bind_ok.mp h
  cases h'
  refine ⟨rfl, ?_⟩
  suffices len : args.flatten.length = (p.prims.filter (·.op.hasArg)).length by
    rw [List.length_cons, len, length_filter_hasArg hp, Opcode.length, Nat.add_comm]
  clear h hp
  generalize p.prims = ds at read sound
  induction ds generalizing args with
  | nil =>
    cases read
    rfl
  | cons d ds ih =>
    obtain ⟨here, soundDs⟩ := List.forall_mem_cons.mp sound
    rw [List.mapM_cons] at read
    obtain ⟨mine, first, read⟩ := except_bind_ok.mp read
    obtain ⟨others, rest, read⟩ := except_bind_ok.mp read
    cases read
    rw [List.flatten_cons, List.length_append, length_of_resolve here first,
      ih others rest soundDs, ← List.length_append, ← List.filter_append, List.singleton_append]

end CodeBuilder

/-! ## Instructions and their primitives -/

/-- Instructions hold primitives with lines: those of the first come first, and the line of an
    instruction is the one of its first primitive. -/
inductive Attributed : List Instr → List (Opcode × Nat) → Prop
  | nil : Attributed [] []
  | cons {i is mine rest} : i.prims.map (·.op) = mine.map (·.1) →
      mine.head?.map (·.2) = some i.line → Attributed is rest → Attributed (i :: is) (mine ++ rest)

/-- Where the code goes on, there is an instruction. -/
theorem Code.Contiguous.uncons {words : Array Word} {index : Nat} {is : List Instr}
    (h : Contiguous words index is) (hlt : index < words.size) :
    ∃ i rest, is = i :: rest ∧ i.ip = index ∧ decodeAt words index = .ok (i.op, i.prims) ∧
      Contiguous words i.next rest := by
  cases h with
  | nil hle => exact absurd hlt (Nat.not_lt.mpr hle)
  | cons _ decoded rest => exact ⟨_, _, rfl, rfl, decoded, rest⟩

/-- Instructions are decoded where they were laid out, and hold what was put there. -/
theorem attributed_of_laid {words : Array Word} {line : Nat → Nat} {labels : Array (Option Nat)}
    {at_ : Array Nat} {start : Nat} {prims : List Draft} {placed : List CodeBuilder.Placed}
    (laid : CodeBuilder.Laid start prims placed) (sound : ∀ d ∈ prims, d.Sound)
    (lines : ∀ p ∈ placed, p.prims.head?.map (·.line) = some (line p.start))
    (before : List Word) {pieces : List (List Word)}
    (written : placed.mapM (CodeBuilder.placedWords labels at_) = .ok pieces)
    (here : words.toList = before ++ pieces.flatten) (len : before.length = start)
    {is : List Instr} (contiguous : Code.Contiguous words start is)
    (told : ∀ i ∈ is, i.line = line i.ip) :
    Attributed is (prims.map fun d => (d.op, d.line)) ∧ is.map (·.op) = placed.map (·.op) := by
  induction laid generalizing before pieces is with
  | nil =>
    rw [List.mapM_nil] at written
    cases written
    have stop : words.size = before.length := by
      rw [← Array.length_toList, here, List.flatten_nil, List.append_nil]
    cases contiguous with
    | nil => exact ⟨.nil, rfl⟩
    | cons hlt => omega
  | @cons p rest ps ops stop _ ih =>
    rw [List.mapM_cons] at written
    obtain ⟨mine, first, written⟩ := except_bind_ok.mp written
    obtain ⟨others, later, written⟩ := except_bind_ok.mp written
    cases written
    obtain ⟨soundHere, soundRest⟩ := List.forall_mem_append.mp sound
    obtain ⟨lineHere, linesRest⟩ := List.forall_mem_cons.mp lines
    obtain ⟨head, length⟩ := CodeBuilder.words_of_placedWords ops soundHere first
    rw [List.flatten_cons] at here
    have opcode : words[p.start]? = some (.ofOpcode p.op) := by
      rw [← Array.getElem?_toList, here, ← len, List.getElem?_append_right (Nat.le_refl _),
        Nat.sub_self, ← List.head?_eq_getElem?, List.head?_append, head]
      rfl
    obtain ⟨i, is, rfl, ip, decoded, contiguousRest⟩ :=
      contiguous.uncons (Array.getElem?_eq_some_iff.mp opcode).1
    obtain ⟨lineI, toldRest⟩ := List.forall_mem_cons.mp told
    have op : i.op = p.op := by
      have found := Code.opcodeAt_ok.mpr (Code.decodeAt_isOk.mp ⟨_, decoded⟩).1
      rw [Code.opcodeAt_ok.mpr opcode] at found
      exact (Except.ok.inj found).symm
    have next : i.next = p.stop := by rw [stop, ← ip, ← op, Instr.next]
    obtain ⟨attributed, same⟩ := ih soundRest linesRest (before ++ mine) later
      (by rw [here, List.append_assoc]) (by rw [List.length_append, len, length, stop])
      (next ▸ contiguousRest) toldRest
    rw [List.map_append]
    refine ⟨.cons ?_ ?_ attributed, by rw [List.map_cons, List.map_cons, op, same]⟩
    · rw [(Code.decodeAt_ok decoded).1, op, ← ops, List.map_map]
      rfl
    · rw [List.head?_map, Option.map_map, lineI, ip, ← lineHere]
      rfl

end TieredMachine
