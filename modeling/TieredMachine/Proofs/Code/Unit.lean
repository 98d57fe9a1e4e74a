/-
  What is known of a checked code unit.

  The instructions of a unit lie one after another from the first word on, and
  each is found by the index that it starts at.  Jumps land on instructions.

  * `Code.Contiguous`: instructions that lie one after another;
  * `CodeUnit.Checked`: what the construction of a unit checks;
  * `Built`, `unitAt`: units built under their own numbers.
-/
import TieredMachine.Code.Unit

namespace TieredMachine

/-! ## Checks that may fail -/

section

variable {ε α β γ : Type}

theorem except_bind_ok {x : Except ε α} {f : α → Except ε β} {b : β} :
    (x >>= f) = .ok b ↔ ∃ a, x = .ok a ∧ f a = .ok b := by
  cases x with
  | ok a => exact ⟨fun h => ⟨a, rfl, h⟩, fun ⟨_, h, h'⟩ => by cases h; exact h'⟩
  | error e => exact ⟨fun h => (nomatch h), fun ⟨_, h, _⟩ => (nomatch h)⟩

theorem eq_ok_of_isSome [Inhabited α] {x : Except ε α} (h : x.toOption.isSome) :
    x = .ok (x.toOption.getD default) := by
  cases x with
  | error e => cases h
  | ok a => rfl

theorem exists_of_mapM_ok {f : α → Except ε β} {as : List α} {bs : List β}
    (h : as.mapM f = .ok bs) {a : α} (ha : a ∈ as) : ∃ b ∈ bs, f a = .ok b := by
  induction as generalizing bs with
  | nil => exact absurd ha List.not_mem_nil
  | cons a' as ih =>
    rw [List.mapM_cons] at h
    obtain ⟨b, hb, h⟩ := except_bind_ok.mp h
    obtain ⟨bs', hbs, h⟩ := except_bind_ok.mp h
    cases h
    rcases List.mem_cons.mp ha with rfl | ha
    · exact ⟨b, List.mem_cons_self, hb⟩
    · obtain ⟨b', hb', hf⟩ := ih hbs ha
      exact ⟨b', List.mem_cons_of_mem _ hb', hf⟩

end

namespace Code

/-! ## Decoding -/

/-- The primitives that are read are those of the opcode, each with an argument exactly
    when it takes one. -/
theorem readArgs_ok {words : Array Word} {ops : List Opcode} {index : Nat}
    {prims : List Primitive} (h : readArgs words index ops = .ok prims) :
    prims.map (·.op) = ops ∧ ∀ p ∈ prims, p.arg.isSome = p.op.hasArg := by
  induction ops generalizing index prims with
  | nil =>
    cases h
    exact ⟨rfl, fun _ hp => absurd hp List.not_mem_nil⟩
  | cons op ops ih =>
    unfold readArgs at h
    split at h
    · rename_i hop
      split at h
      · cases h
      · obtain ⟨ps, hps, h⟩ := except_bind_ok.mp h
        cases h
        obtain ⟨h₁, h₂⟩ := ih hps
        refine ⟨by simp [h₁], fun p hp => ?_⟩
        rcases List.mem_cons.mp hp with rfl | hp
        · exact hop.symm
        · exact h₂ p hp
    · rename_i hop
      obtain ⟨ps, hps, h⟩ := except_bind_ok.mp h
      cases h
      obtain ⟨h₁, h₂⟩ := ih hps
      refine ⟨by simp [h₁], fun p hp => ?_⟩
      rcases List.mem_cons.mp hp with rfl | hp
      · simpa using hop
      · exact h₂ p hp

theorem decodeAt_ok {words : Array Word} {index : Nat} {op : Opcode} {prims : List Primitive}
    (h : decodeAt words index = .ok (op, prims)) :
    prims.map (·.op) = op.primitives ∧ ∀ p ∈ prims, p.arg.isSome = p.op.hasArg := by
  unfold decodeAt at h
  obtain ⟨op', _, h⟩ := except_bind_ok.mp h
  obtain ⟨prims', hp, h⟩ := except_bind_ok.mp h
  dsimp only at h
  split at h
  · cases h
  · cases h
    exact readArgs_ok hp

/-! ## Instructions in their places -/

/-- Instructions that lie one after another from an index to the end of the code. -/
inductive Contiguous (words : Array Word) : Nat → List Instr → Prop
  | nil {ip} : words.size ≤ ip → Contiguous words ip []
  | cons {i is} : i.ip < words.size → decodeAt words i.ip = .ok (i.op, i.prims) →
      Contiguous words i.next is → Contiguous words i.ip (i :: is)

theorem contiguous_of_instrsFrom {words : Array Word} {line : Nat → Nat} (ip : Nat)
    {is : List Instr} (h : instrsFrom words line ip = .ok is) : Contiguous words ip is := by
  induction ip using instrsFrom.induct words generalizing is with
  | case1 ip hlt ih =>
    rw [instrsFrom, if_pos hlt] at h
    obtain ⟨⟨op, prims⟩, hd, h⟩ := except_bind_ok.mp h
    obtain ⟨rest, hr, h⟩ := except_bind_ok.mp h
    cases h
    exact .cons (i := ⟨ip, op, prims, line ip⟩) hlt hd (ih op hr)
  | case2 ip hge =>
    rw [instrsFrom, if_neg hge] at h
    cases h
    exact .nil (Nat.le_of_not_lt hge)

theorem Instr.ip_lt_next (i : Instr) : i.ip < i.next := by
  simp only [Instr.next, Opcode.length]
  omega

namespace Contiguous

variable {words : Array Word} {ip : Nat} {is : List Instr} {i : Instr}

theorem le_ip (h : Contiguous words ip is) (hi : i ∈ is) : ip ≤ i.ip := by
  induction h with
  | nil => exact absurd hi List.not_mem_nil
  | cons _ _ _ ih =>
    rcases List.mem_cons.mp hi with rfl | hi
    · exact Nat.le_refl _
    · exact Nat.le_trans (Nat.le_of_lt (Instr.ip_lt_next _)) (ih hi)

theorem ip_lt (h : Contiguous words ip is) (hi : i ∈ is) : i.ip < words.size := by
  induction h with
  | nil => exact absurd hi List.not_mem_nil
  | cons hlt _ _ ih =>
    rcases List.mem_cons.mp hi with rfl | hi
    · exact hlt
    · exact ih hi

theorem decoded (h : Contiguous words ip is) (hi : i ∈ is) :
    decodeAt words i.ip = .ok (i.op, i.prims) := by
  induction h with
  | nil => exact absurd hi List.not_mem_nil
  | cons _ hd _ ih =>
    rcases List.mem_cons.mp hi with rfl | hi
    · exact hd
    · exact ih hi

end Contiguous

/-! ## The table of starts -/

/-- What filling the table of starts does to a table. -/
def fillStarts (t : Array (Option Nat)) (n : Nat) (is : List Instr) : Array (Option Nat) :=
  (is.zipIdx n).foldl (fun t p => t.setIfInBounds p.1.ip (some p.2)) t

theorem fillStarts_other (t : Array (Option Nat)) (n : Nat) (is : List Instr) {ip : Nat}
    (h : ∀ i ∈ is, i.ip ≠ ip) : (fillStarts t n is)[ip]? = t[ip]? := by
  induction is generalizing t n with
  | nil => rfl
  | cons i is ih =>
    have hi : i.ip ≠ ip := h i List.mem_cons_self
    have := ih (t.setIfInBounds i.ip (some n)) (n + 1) fun j hj => h j (List.mem_cons_of_mem _ hj)
    rw [show fillStarts t n (i :: is) = fillStarts (t.setIfInBounds i.ip (some n)) (n + 1) is
      from rfl, this]
    simp [hi]

theorem Contiguous.fillStarts_get {words : Array Word} {ip : Nat} {is : List Instr}
    (h : Contiguous words ip is) {t : Array (Option Nat)} (ht : t.size = words.size) (n : Nat)
    {k : Nat} {i : Instr} (hk : is[k]? = some i) :
    (fillStarts t n is)[i.ip]? = some (some (n + k)) := by
  induction h generalizing t n k with
  | nil => exact absurd hk (by simp)
  | @cons j js hlt _ hc ih =>
    have hs : (t.setIfInBounds j.ip (some n)).size = words.size := by simp [ht]
    rw [show fillStarts t n (j :: js) = fillStarts (t.setIfInBounds j.ip (some n)) (n + 1) js
      from rfl]
    cases k with
    | zero =>
      cases hk
      rw [fillStarts_other _ _ _ fun i hi => ?_]
      · simp [ht, hlt]
      · have := hc.le_ip hi
        exact Nat.ne_of_gt (Nat.lt_of_lt_of_le (Instr.ip_lt_next _) this)
    | succ k =>
      rw [List.getElem?_cons_succ] at hk
      rw [ih hs (n + 1) hk]
      congr 2
      omega

/-- The table of starts finds the instruction that starts at an index, and nothing else. -/
theorem Contiguous.startTable_get {words : Array Word} {is : List Instr}
    (h : Contiguous words 0 is) {ip k : Nat} :
    (startTable words.size is)[ip]?.join = some k ↔ ∃ i, is[k]? = some i ∧ i.ip = ip := by
  have fill : startTable words.size is = fillStarts (.replicate words.size none) 0 is := rfl
  constructor
  · intro hk
    by_cases hi : ∃ i ∈ is, i.ip = ip
    · obtain ⟨i, hi, rfl⟩ := hi
      obtain ⟨k', hk'⟩ := List.mem_iff_getElem?.mp hi
      rw [fill, h.fillStarts_get (by simp) 0 hk'] at hk
      simp only [Nat.zero_add, Option.join_some, Option.some.injEq] at hk
      exact ⟨i, hk ▸ hk', rfl⟩
    · rw [fill, fillStarts_other _ _ _ fun i h e => hi ⟨i, h, e⟩] at hk
      simp only [Array.getElem?_replicate] at hk
      split at hk <;> simp at hk
  · rintro ⟨i, hi, rfl⟩
    rw [fill, h.fillStarts_get (by simp) 0 hi, Nat.zero_add]
    rfl

end Code

namespace CodeUnit

/-! ## Checked units -/

/-- What the construction of a unit checks. -/
structure Checked (u : CodeUnit) : Prop where
  contiguous : Code.Contiguous u.words 0 u.instrs.toList
  starts : u.instrOf = Code.startTable u.words.size u.instrs.toList
  nonempty : 0 < u.words.size
  jumps : ∀ i ∈ u.instrs.toList, ∀ p ∈ i.prims, ∀ target, p.target? i.next = some target →
    (u.instrOf[target]?.join).isSome

/-- A primitive that is accepted jumps to the start of an instruction, if it jumps. -/
theorem target_of_checkPrimitive {parts : CodeParts} {starts : Array (Option Nat)} {i : Instr}
    {p : Primitive} {r : Option HandlerEntry} (h : Code.checkPrimitive parts starts i p = .ok r)
    {target : Nat} (ht : p.target? i.next = some target) : (starts[target]?.join).isSome := by
  unfold Code.checkPrimitive at h
  unfold Primitive.target? at ht
  cases ha : p.arg with
  | none => simp [ha] at ht
  | some arg =>
    simp only [ha, Option.bind_some] at h ht
    have jump : Code.tableLength? parts p.op.argKind = none ∧ p.op.argKind ≠ .compare := by
      unfold Code.jumpTarget? at ht
      split at ht <;> simp_all [Code.tableLength?]
    simp only [jump.1, jump.2, decide_false, Bool.false_and, Bool.false_eq_true, if_false,
      ht] at h
    cases hs : starts[target]?.join with
    | none =>
      simp only [hs, Option.isNone_none, if_true] at h
      cases h
    | some _ => rfl

/-- What the construction of a unit has gone through: the words are decoded with the lines in
    order, and every primitive is accepted. -/
theorem ofParts_ok {id : Ref} {parts : CodeParts} {u : CodeUnit}
    (h : ofParts id parts = .ok u) : ∃ instrs lines flags handlers,
      lines = parts.lines.mergeSort (fun a b => a.1 ≤ b.1) ∧ 0 < parts.words.size ∧
      Code.instrsFrom parts.words (Code.lineOf parts.firstLine lines) 0 = .ok instrs ∧
      instrs.mapM (fun i => i.prims.mapM (Code.checkPrimitive { parts with lines }
        (Code.startTable parts.words.size instrs) i)) = .ok handlers ∧
      u.id = id ∧ u.toCodeParts = { parts with lines, flags } ∧ u.instrs = instrs.toArray ∧
      u.instrOf = Code.startTable parts.words.size instrs := by
  unfold ofParts at h
  simp only [bind, Except.bind] at h
  split at h
  · cases h
  · rename_i nonempty
    split at h
    · cases h
    · rename_i instrs hi
      split at h
      · cases h
      · split at h
        · cases h
        · rename_i handlers hh
          cases h
          simp only [Array.isEmpty_iff_size_eq_zero] at nonempty
          exact ⟨instrs, _, _, handlers, rfl, Nat.pos_of_ne_zero nonempty, hi, hh, rfl, rfl, rfl,
            rfl⟩

/-- A unit that is constructed has its number and is checked. -/
theorem checked_of_ofParts {id : Ref} {parts : CodeParts} {u : CodeUnit}
    (h : ofParts id parts = .ok u) : u.id = id ∧ u.Checked := by
  obtain ⟨instrs, lines, flags, handlers, -, nonempty, hi, hh, number, made, his, starts⟩ :=
    ofParts_ok h
  have words : u.words = parts.words := by rw [made]
  refine ⟨number, ?_, ?_, words ▸ nonempty, fun i hm p hp target ht => ?_⟩
  · rw [words, his]
    exact Code.contiguous_of_instrsFrom 0 hi
  · rw [words, his]
    exact starts
  · rw [his] at hm
    obtain ⟨hs, _, hs'⟩ := exists_of_mapM_ok hh hm
    obtain ⟨r, _, hr⟩ := exists_of_mapM_ok hs' hp
    exact starts ▸ target_of_checkPrimitive hr ht

namespace Checked

variable {u : CodeUnit} {ip : Nat} {i : Instr}

theorem instrAt?_eq_some (hu : u.Checked) :
    u.instrAt? ip = some i ↔ i ∈ u.instrs.toList ∧ i.ip = ip := by
  unfold instrAt?
  rw [hu.starts]
  constructor
  · intro h
    obtain ⟨k, hk, hi⟩ := Option.bind_eq_some_iff.mp h
    obtain ⟨j, hj, rfl⟩ := hu.contiguous.startTable_get.mp hk
    rw [← Array.getElem?_toList, hj] at hi
    cases hi
    exact ⟨List.mem_of_getElem? hj, rfl⟩
  · rintro ⟨hi, rfl⟩
    obtain ⟨k, hk⟩ := List.mem_iff_getElem?.mp hi
    rw [hu.contiguous.startTable_get.mpr ⟨i, hk, rfl⟩, Option.bind_some,
      ← Array.getElem?_toList, hk]

/-- The table of starts tells the numbers of the instructions. -/
theorem instrOf_eq_some (hu : u.Checked) {k : Nat} :
    u.instrOf[ip]?.join = some k ↔ ∃ i, u.instrs[k]? = some i ∧ i.ip = ip := by
  rw [hu.starts]
  simp only [hu.contiguous.startTable_get, Array.getElem?_toList]

theorem ip_eq (hu : u.Checked) (h : u.instrAt? ip = some i) : i.ip = ip :=
  (hu.instrAt?_eq_some.mp h).2

theorem ip_lt (hu : u.Checked) (h : u.instrAt? ip = some i) : ip < u.words.size := by
  obtain ⟨hi, rfl⟩ := hu.instrAt?_eq_some.mp h
  exact hu.contiguous.ip_lt hi

/-- The primitives of an instruction are those of its opcode. -/
theorem primitives (hu : u.Checked) (h : u.instrAt? ip = some i) :
    i.prims.map (·.op) = i.op.primitives ∧ ∀ p ∈ i.prims, p.arg.isSome = p.op.hasArg :=
  Code.decodeAt_ok (hu.contiguous.decoded (hu.instrAt?_eq_some.mp h).1)

/-- Jumps land on instructions. -/
theorem target_isSome (hu : u.Checked) (h : u.instrAt? ip = some i) {p : Primitive}
    (hp : p ∈ i.prims) {target : Nat} (ht : p.target? i.next = some target) :
    (u.instrAt? target).isSome := by
  have hs := hu.jumps i (hu.instrAt?_eq_some.mp h).1 p hp target ht
  obtain ⟨k, hk⟩ := Option.isSome_iff_exists.mp hs
  rw [hu.starts] at hk
  obtain ⟨j, hj, rfl⟩ := hu.contiguous.startTable_get.mp hk
  rw [hu.instrAt?_eq_some.mpr ⟨List.mem_of_getElem? hj, rfl⟩]
  rfl

theorem size_le_stop (hu : u.Checked) : u.words.size ≤ u.stop := by
  have last {ip : Nat} {is : List Instr} (h : Code.Contiguous u.words ip is) :
      u.words.size ≤ ((is.getLast?.map Instr.next).getD ip) := by
    induction h with
    | nil h => exact h
    | @cons j js _ _ _ ih =>
      cases js with
      | nil => exact ih
      | cons k ks =>
        obtain ⟨l, hl⟩ : ∃ l, (k :: ks).getLast? = some l :=
          ⟨_, List.getLast?_eq_some_getLast (List.cons_ne_nil k ks)⟩
        rw [hl] at ih
        rw [List.getLast?_cons_cons, hl]
        exact ih
  have := last hu.contiguous
  unfold stop
  rwa [← Array.getLast?_toList]

/-- No instruction starts at the end of the code or behind it. -/
theorem instrAt?_of_stop_le (hu : u.Checked) (h : u.stop ≤ ip) : u.instrAt? ip = none := by
  cases hi : u.instrAt? ip with
  | none => rfl
  | some i =>
    have := hu.ip_lt hi
    have := hu.size_le_stop
    omega

/-- Every instruction starts before the end of the code. -/
theorem lt_stop (hu : u.Checked) (h : u.instrAt? ip = some i) : ip < u.stop := by
  refine Nat.lt_of_not_le fun hle => ?_
  rw [hu.instrAt?_of_stop_le hle] at h
  cases h

end Checked

end CodeUnit

/-- Whether an instruction suspends its frame. -/
def Instr.yields (i : Instr) : Bool := i.prims.any (·.op == .yieldValue)

/-! ## Units by their numbers -/

/-- Every unit was built under its own number. -/
structure Built (us : Array CodeUnit) : Prop where
  parts : ∀ r u, us[r]? = some u → ∃ parts, CodeUnit.ofParts r parts = .ok u

/-- The code unit with a number. -/
def unitAt (us : Array CodeUnit) (r : Ref) : CodeUnit :=
  us[r]?.getD { (default : CodeUnit) with id := r }

namespace Built

variable {us : Array CodeUnit}

theorem id (hu : Built us) (r : Ref) : (unitAt us r).id = r := by
  unfold unitAt
  cases h : us[r]? with
  | none => rfl
  | some u =>
    obtain ⟨parts, hp⟩ := hu.parts r u h
    exact (CodeUnit.checked_of_ofParts hp).1

theorem checked (hu : Built us) {r : Ref} {u : CodeUnit} (h : us[r]? = some u) : u.Checked := by
  obtain ⟨parts, hp⟩ := hu.parts r u h
  exact (CodeUnit.checked_of_ofParts hp).2

end Built

end TieredMachine
