/-
  What the written form of a value tells about it.

  A literal is a scalar, or a tuple, list or dictionary of literals; being built from the
  inside out, it does not contain itself.  Its written form can be read in one way only.  The
  first character tells the kind of the value.  Where the value ends can be told without what
  follows; only an integer needs to be followed by something that no value begins with.  So
  the items of a container come apart one after the other.

  * `Heap.Literal`, `Heap.Literal.nests`: literals nest less deep than the heap's bound;
  * `Heap.Identical`: values of one structure, perhaps on two heaps;
  * `Text.opened`, `Text.ApartUnless`: reading a text from its front;
  * `Integer.text_apart`, `Text.quote_apart`, `Text.listed_apart`: the parts of written forms;
  * `Heap.Literal.write_apart`, `Heap.Identical.write_eq`: written forms of literals;
  * **`repr_distinguishes`**: they are the same just for identical literals.
-/
import TieredMachine.Proofs.Heap.Data
import TieredMachine.Heap.Text
import Mathlib

namespace TieredMachine

/-! ## Literals -/

/-- Scalars, and the containers of literals. -/
inductive Heap.Literal (h : Heap) : Value → Prop
  | none : Literal h .none
  | bool (b : Bool) : Literal h (.bool b)
  | int (n : Int64) : Literal h (.int n)
  | str (s : String) : Literal h (.str s)
  | tuple {r} : (∀ v ∈ h.tuple r, Literal h v) → Literal h (.tuple r)
  | list {r} : (∀ v ∈ h.list r, Literal h v) → Literal h (.list r)
  | dict {r} : (∀ p ∈ (h.dict r).toList, Literal h p.1) → (∀ p ∈ (h.dict r).toList, Literal h p.2) →
      Literal h (.dict r)

/-- Values of one type and structure: the same scalar, or containers of identical values in
    the same order. -/
inductive Heap.Identical (h h' : Heap) : Value → Value → Prop
  | none : Identical h h' .none .none
  | bool (b : Bool) : Identical h h' (.bool b) (.bool b)
  | int (n : Int64) : Identical h h' (.int n) (.int n)
  | str (s : String) : Identical h h' (.str s) (.str s)
  | tuple {r r'} : List.Forall₂ (Identical h h') (h.tuple r).toList (h'.tuple r').toList →
      Identical h h' (.tuple r) (.tuple r')
  | list {r r'} : List.Forall₂ (Identical h h') (h.list r).toList (h'.list r').toList →
      Identical h h' (.list r) (.list r')
  | dict {r r'} :
      List.Forall₂ (Identical h h') ((h.dict r).toList.map (·.1)) ((h'.dict r').toList.map (·.1)) →
      List.Forall₂ (Identical h h') ((h.dict r).toList.map (·.2)) ((h'.dict r').toList.map (·.2)) →
      Identical h h' (.dict r) (.dict r')

namespace Heap

variable {h h' : Heap} {v w : Value}

theorem forall₂_entries {R : Value → Value → Prop} {l l' : List (Value × Value)} :
    List.Forall₂ (fun p q => R p.1 q.1 ∧ R p.2 q.2) l l' ↔
      List.Forall₂ R (l.map (·.1)) (l'.map (·.1)) ∧ List.Forall₂ R (l.map (·.2)) (l'.map (·.2)) := by
  induction l generalizing l' with
  | nil => simp
  | cons p l ih =>
    cases l' with
    | nil => simp
    | cons q l' =>
      simp only [List.map_cons, List.forall₂_cons, ih]
      exact and_and_and_comm

theorem identical_dict_iff {r r' : Ref} : Identical h h' (.dict r) (.dict r') ↔
    List.Forall₂ (fun p q => Identical h h' p.1 q.1 ∧ Identical h h' p.2 q.2)
      (h.dict r).toList (h'.dict r').toList := by
  rw [forall₂_entries]
  exact ⟨fun same => by cases same with | dict keys values => exact ⟨keys, values⟩,
    fun same => .dict same.1 same.2⟩

theorem mem_children_entries {r : Ref} :
    v ∈ h.children (.dict r) ↔ ∃ p ∈ (h.dict r).toList, v = p.1 ∨ v = p.2 := by
  simp [children]

theorem key_mem_children {r : Ref} {p : Value × Value} (hp : p ∈ (h.dict r).toList) :
    p.1 ∈ h.children (.dict r) := mem_children_entries.mpr ⟨p, hp, .inl rfl⟩

theorem value_mem_children {r : Ref} {p : Value × Value} (hp : p ∈ (h.dict r).toList) :
    p.2 ∈ h.children (.dict r) := mem_children_entries.mpr ⟨p, hp, .inr rfl⟩

theorem Literal.child (hv : h.Literal v) (hw : w ∈ h.children v) : h.Literal w := by
  cases hv with
  | tuple items => exact items w (Array.mem_def.mpr hw)
  | list items => exact items w (Array.mem_def.mpr hw)
  | dict keys values =>
    obtain ⟨p, hp, rfl | rfl⟩ := mem_children_entries.mp hw
    · exact keys p hp
    · exact values p hp
  | _ => exact absurd hw List.not_mem_nil

theorem Literal.nests (hv : h.Literal v) : ∃ n < h.depth, h.Nests n v := by
  have some : ∃ n, h.Nests n v := by
    induction hv with
    | tuple _ ih => exact exists_nests_of_children fun w hw => ih w (Array.mem_def.mpr hw)
    | list _ ih => exact exists_nests_of_children fun w hw => ih w (Array.mem_def.mpr hw)
    | dict _ _ keys values =>
      refine exists_nests_of_children fun w hw => ?_
      obtain ⟨p, hp, rfl | rfl⟩ := mem_children_entries.mp hw
      · exact keys p hp
      · exact values p hp
    | _ => exact ⟨0, rfl⟩
  obtain ⟨n, hn⟩ := some
  exact hn.lt_depth

end Heap

/-! ## Reading a text from its front -/

namespace Text

variable {p : Prop} {x y s : List Char} {kind : TypeTag}

/-- The kind of the literals that are written with a character in front. -/
def opened (c : Char) : Option TypeTag :=
  if c = '-' ∨ c.isDigit then some .int
  else if c = 'N' then some .none
  else if c = 'T' ∨ c = 'F' then some .bool
  else if c = '\x27' then some .str
  else if c = '(' then some .tuple
  else if c = '[' then some .list
  else if c = '\x7b' then some .dict
  else none

/-- The kind of the literal that a text begins with. -/
def leading (s : List Char) : Option TypeTag := s.head?.bind opened

/-- Two texts, whatever stands behind them that begins no literal, are the same text only if
    `p` holds, and then so is what stands behind them. -/
def ApartUnless (p : Prop) (x y : List Char) : Prop :=
  ∀ s t, leading s = none → leading t = none → x ++ s = y ++ t → p ∧ s = t

theorem leading_append (hx : leading x = some kind) : leading (x ++ s) = some kind := by
  cases x with
  | nil => cases hx
  | cons c x => exact hx

/-- Texts with the same behind them are the same only if `p` holds. -/
theorem ApartUnless.of_eq (h : ApartUnless p x y) (same : x = y) : p :=
  (h [] [] rfl rfl (by rw [same])).1

/-! ### Quoted texts -/

/-- A character stands for itself, or behind a backslash if it is one or the quote. -/
theorem quoteChar_cases (c : Char) :
    quoteChar c = ['\\', c] ∨ (quoteChar c = [c] ∧ c ≠ '\\' ∧ c ≠ '\x27') := by
  unfold quoteChar
  split
  · rename_i backslash
    exact .inl (by rw [backslash])
  · split
    · rename_i quote
      exact .inl (by rw [quote])
    · rename_i other other'
      exact .inr ⟨rfl, other, other'⟩

theorem quoteChar_inj {c d : Char} (same : quoteChar c ++ x = quoteChar d ++ y) :
    c = d ∧ x = y := by
  rcases quoteChar_cases c with hc | ⟨hc, plain, -⟩ <;>
    rcases quoteChar_cases d with hd | ⟨hd, plain', -⟩ <;> rw [hc, hd] at same
  · exact List.cons.inj (List.cons.inj same).2
  · exact absurd (List.cons.inj same).1.symm plain'
  · exact absurd (List.cons.inj same).1 plain
  · exact List.cons.inj same

/-- What a character is written as does not begin with the closing quote. -/
theorem quote_ne_quoteChar {c : Char} : '\x27' :: x ≠ quoteChar c ++ y := by
  intro same
  rcases quoteChar_cases c with hc | ⟨hc, -, other⟩ <;> rw [hc] at same
  · exact absurd (List.cons.inj same).1 (by decide)
  · exact absurd (List.cons.inj same).1.symm other

theorem quoted_inj {a b s t : List Char}
    (same : a.flatMap quoteChar ++ '\x27' :: s = b.flatMap quoteChar ++ '\x27' :: t) :
    a = b ∧ s = t := by
  induction a generalizing b with
  | nil =>
    cases b with
    | nil => exact ⟨rfl, (List.cons.inj same).2⟩
    | cons d b =>
      rw [List.flatMap_cons, List.append_assoc] at same
      exact absurd same quote_ne_quoteChar
  | cons c a ih =>
    cases b with
    | nil =>
      rw [List.flatMap_cons, List.append_assoc] at same
      exact absurd same.symm quote_ne_quoteChar
    | cons d b =>
      rw [List.flatMap_cons, List.flatMap_cons, List.append_assoc, List.append_assoc] at same
      obtain ⟨rfl, rest⟩ := quoteChar_inj same
      exact (ih rest).imp_left (congrArg (c :: ·))

theorem toList_quote (a : String) :
    (quote a).toList = '\x27' :: (a.toList.flatMap quoteChar ++ ['\x27']) :=
  String.toList_ofList

theorem quote_apart (a b : String) : ApartUnless (a = b) (quote a).toList (quote b).toList := by
  intro s t _ _ same
  simp only [toList_quote, List.cons_append, List.append_assoc, List.nil_append,
    List.cons.injEq, true_and] at same
  exact (quoted_inj same).imp_left String.toList_inj.mp

/-! ### Items -/

/-- The items after the first one, each behind a comma, and what ends them. -/
def following (ending : List Char) : List (List Char) → List Char
  | [] => ending
  | x :: xs => ',' :: ' ' :: (x ++ following ending xs)

/-- Items with commas between them, and what ends them. -/
def listed (ending : List Char) : List (List Char) → List Char
  | [] => ending
  | x :: xs => x ++ following ending xs

/-- The text may end items: it is neither an item nor the comma in front of one. -/
structure Ends (s : List Char) : Prop where
  leading : leading s = none
  separates : ∀ r, s ≠ ',' :: ' ' :: r

theorem toList_join (e : List Char) (items : List String) :
    (join ", " items).toList ++ e = listed e (items.map String.toList) := by
  unfold join
  induction items with
  | nil => rw [String.intercalate_nil]; rfl
  | cons x items ih =>
    cases items with
    | nil => rw [String.intercalate_singleton]; rfl
    | cons y items =>
      rw [String.intercalate_cons_cons, String.toList_append, String.toList_append,
        List.append_assoc, ih, List.append_assoc]
      rfl

section

variable {α β : Type} {P : α → β → Prop} {f : α → List Char} {g : β → List Char}
variable {l : List α} {l' : List β} {e e' : List Char}

theorem leading_following {xs : List (List Char)} (he : Ends e) :
    leading (following e xs) = none := by
  cases xs with
  | nil => exact he.leading
  | cons x xs => rfl

theorem following_apart (each : ∀ a ∈ l, ∀ b ∈ l', ApartUnless (P a b) (f a) (g b))
    (he : Ends e) (he' : Ends e')
    (same : following e (l.map f) = following e' (l'.map g)) : List.Forall₂ P l l' ∧ e = e' := by
  induction l generalizing l' with
  | nil =>
    cases l' with
    | nil => exact ⟨.nil, same⟩
    | cons b l' => exact absurd same (he.separates _)
  | cons a l ih =>
    cases l' with
    | nil => exact absurd same.symm (he'.separates _)
    | cons b l' =>
      simp only [List.map_cons, following, List.cons.injEq, true_and] at same
      obtain ⟨first, rest⟩ := each a List.mem_cons_self b List.mem_cons_self _ _
        (leading_following he) (leading_following he') same
      have all := fun a ha b hb =>
        each a (List.mem_cons_of_mem _ ha) b (List.mem_cons_of_mem _ hb)
      exact (ih all rest).imp_left (.cons first)

/-- Items that begin with literals can be told one by one. -/
theorem listed_apart (each : ∀ a ∈ l, ∀ b ∈ l', ApartUnless (P a b) (f a) (g b))
    (item : ∀ a ∈ l, ∃ kind, leading (f a) = some kind)
    (item' : ∀ b ∈ l', ∃ kind, leading (g b) = some kind) (he : Ends e) (he' : Ends e')
    (same : listed e (l.map f) = listed e' (l'.map g)) : List.Forall₂ P l l' ∧ e = e' := by
  -- what ends the items begins with no item
  have apart {x r e : List Char} {kind : TypeTag} (hx : leading x = some kind) (he : Ends e) :
      e ≠ x ++ r := fun same => by
    have none := he.leading
    rw [same, leading_append hx] at none
    cases none
  cases l with
  | nil =>
    cases l' with
    | nil => exact ⟨.nil, same⟩
    | cons b l' =>
      obtain ⟨kind, hb⟩ := item' b List.mem_cons_self
      exact absurd same (apart hb he)
  | cons a l =>
    cases l' with
    | nil =>
      obtain ⟨kind, ha⟩ := item a List.mem_cons_self
      exact absurd same.symm (apart ha he')
    | cons b l' =>
      obtain ⟨first, rest⟩ := each a List.mem_cons_self b List.mem_cons_self _ _
        (leading_following he) (leading_following he') same
      have all := fun a ha b hb =>
        each a (List.mem_cons_of_mem _ ha) b (List.mem_cons_of_mem _ hb)
      exact (following_apart all he he' rest).imp_left (.cons first)

end

end Text

/-! ### Integers -/

namespace Integer

open Text (opened leading leading_append ApartUnless)

theorem opened_eq_int {c : Char} : opened c = some .int ↔ c = '-' ∨ c.isDigit := by
  unfold opened
  split <;> simp_all [ite_eq_iff]

theorem opened_of_mem_text {n : Int64} {c : Char} (hc : c ∈ (text n).toList) :
    opened c = some .int := by
  have digit {m : Nat} (hc : c ∈ (Nat.repr m).toList) : c = '-' ∨ c.isDigit := by
    rw [Nat.repr_eq_ofList_toDigits, String.toList_ofList] at hc
    exact .inr (Nat.isDigit_of_mem_toDigits (by decide) (by decide) hc)
  rw [opened_eq_int]
  rw [text, Int.toString_eq_repr, Int.repr_eq_if] at hc
  split at hc
  · exact digit hc
  · rw [String.toList_append, List.mem_append] at hc
    rcases hc with sign | hc
    · exact .inl (List.mem_singleton.mp sign)
    · exact digit hc

theorem leading_text (n : Int64) : leading (text n).toList = some .int := by
  have nonempty : (text n).toList ≠ [] := by
    have digits {m : Nat} : (Nat.repr m).toList ≠ [] := by
      rw [Nat.repr_eq_ofList_toDigits, String.toList_ofList]
      exact Nat.toDigits_ne_nil
    rw [text, Int.toString_eq_repr, Int.repr_eq_if]
    split
    · exact digits
    · rw [String.toList_append]
      exact List.append_ne_nil_of_right_ne_nil _ digits
  obtain ⟨c, s, hs⟩ := List.exists_cons_of_ne_nil nonempty
  rw [hs]
  exact opened_of_mem_text (hs ▸ List.mem_cons_self)

theorem text_inj {a b : Int64} (same : text a = text b) : a = b :=
  Int64.toInt_inj.mp (Int.repr_injective same)

/-- An integer is as much of the text as belongs to a number. -/
theorem text_apart (a b : Int64) : ApartUnless (a = b) (text a).toList (text b).toList := by
  intro s t hs ht same
  have numeral {n : Int64} {s : List Char} (hs : leading s = none) :
      ((text n).toList ++ s).takeWhile (opened · == some .int) = (text n).toList := by
    rw [List.takeWhile_append_of_pos fun c hc => by rw [opened_of_mem_text hc]; rfl]
    cases s with
    | nil => rw [List.takeWhile_nil, List.append_nil]
    | cons c s =>
      have none : opened c = none := hs
      rw [List.takeWhile_cons_of_neg (by rw [none]; decide), List.append_nil]
  have numbers : (text a).toList = (text b).toList := by
    rw [← numeral hs, same, numeral ht]
  rw [numbers] at same
  exact ⟨text_inj (String.toList_inj.mp numbers), List.append_cancel_left same⟩

end Integer

/-! ## Written forms -/

namespace Heap

open Text (leading leading_append listed listed_apart toList_join Ends ApartUnless)

variable {h h' : Heap} {v w : Value} {fuel fuel' n n' : Nat}

section

variable {items : List String} {left right : String} {s : List Char}

/-- What stands behind the last of so many items of a tuple. -/
def tupleEnding (n : Nat) (s : List Char) : List Char :=
  if n = 1 then ',' :: ')' :: s else ')' :: s

theorem toList_bracket : (bracket left right items).toList ++ s =
    left.toList ++ listed (right.toList ++ s) (items.map String.toList) := by
  rw [bracket, String.toList_append, String.toList_append, List.append_assoc, List.append_assoc,
    toList_join]

theorem toList_tupleText : (tupleText items).toList ++ s =
    '(' :: listed (tupleEnding items.length s) (items.map String.toList) := by
  unfold tupleText
  split
  · rename_i item
    simp [listed, Text.following, tupleEnding, toString]
  · rename_i other
    rw [toList_bracket, tupleEnding, if_neg fun single => ?_]
    · rfl
    · obtain ⟨item, rfl⟩ := List.length_eq_one_iff.mp single
      exact other item rfl

theorem ends_tupleEnding : Ends (tupleEnding n s) := by
  unfold tupleEnding
  split
  · exact ⟨rfl, fun _ same => absurd (List.cons.inj (List.cons.inj same).2).1 (by decide)⟩
  · exact ⟨rfl, fun _ same => absurd (List.cons.inj same).1 (by decide)⟩

theorem tupleEnding_inj {t : List Char} (same : tupleEnding n s = tupleEnding n t) : s = t := by
  unfold tupleEnding at same
  split at same
  · exact (List.cons.inj (List.cons.inj same).2).2
  · exact (List.cons.inj same).2

end

theorem write_none (h : Heap) (fuel : Nat) : h.write (fuel + 1) true .none = "None" := rfl

theorem write_bool (h : Heap) (fuel : Nat) (b : Bool) : h.write (fuel + 1) true (.bool b) =
    if b then "True" else "False" := rfl

theorem write_tuple (h : Heap) (fuel : Nat) (r : Ref) : h.write (fuel + 1) true (.tuple r) =
    tupleText ((h.tuple r).toList.map (h.write fuel true)) := rfl

theorem write_list (h : Heap) (fuel : Nat) (r : Ref) : h.write (fuel + 1) true (.list r) =
    bracket "[" "]" ((h.list r).toList.map (h.write fuel true)) := rfl

/-- An entry of a dictionary, given how values are written. -/
def pairText (f : Value → String) (p : Value × Value) : String := f p.1 ++ ": " ++ f p.2

theorem write_dict (h : Heap) (fuel : Nat) (r : Ref) : h.write (fuel + 1) true (.dict r) =
    bracket "\x7b" "\x7d" ((h.dict r).toList.map (pairText (h.write fuel true))) := rfl

/-- The first character tells the kind of the value. -/
theorem Literal.leading_write (hv : h.Literal v) (hf : 0 < fuel) :
    leading (h.write fuel true v).toList = some v.tag := by
  obtain ⟨fuel, rfl⟩ := Nat.exists_eq_add_one.mpr hf
  cases hv with
  | none =>
    rw [write_none]
    decide
  | bool b =>
    rw [write_bool]
    cases b <;> decide
  | int n => exact Integer.leading_text n
  | str s => exact congrArg leading (Text.toList_quote s)
  | tuple =>
    rw [write_tuple, ← List.append_nil (tupleText _).toList, toList_tupleText]
    rfl
  | list =>
    rw [write_list, ← List.append_nil (bracket ..).toList, toList_bracket]
    rfl
  | dict =>
    rw [write_dict, ← List.append_nil (bracket ..).toList, toList_bracket]
    rfl

/-! ### Items of containers -/

section

variable {α β : Type} {P : α → β → Prop} {f : α → String} {g : β → String}
variable {l : List α} {l' : List β} {s t : List Char}

/-- Items between brackets can be told one by one. -/
theorem bracket_apart {left right : String} {c : Char} (hc : right.toList = [c])
    (closes : Text.opened c = none) (comma : c ≠ ',')
    (each : ∀ a ∈ l, ∀ b ∈ l', ApartUnless (P a b) (f a).toList (g b).toList)
    (item : ∀ a ∈ l, ∃ kind, leading (f a).toList = some kind)
    (item' : ∀ b ∈ l', ∃ kind, leading (g b).toList = some kind)
    (same : (bracket left right (l.map f)).toList ++ s =
      (bracket left right (l'.map g)).toList ++ t) : List.Forall₂ P l l' ∧ s = t := by
  rw [toList_bracket, toList_bracket, List.map_map, List.map_map, hc] at same
  have ends {s : List Char} : Ends (c :: s) :=
    ⟨closes, fun r same => comma (List.cons.inj same).1⟩
  obtain ⟨all, rest⟩ := listed_apart each item item' ends ends (List.append_cancel_left same)
  exact ⟨all, (List.cons.inj rest).2⟩

/-- The items of tuples can be told one by one, a single one included. -/
theorem tupleText_apart
    (each : ∀ a ∈ l, ∀ b ∈ l', ApartUnless (P a b) (f a).toList (g b).toList)
    (item : ∀ a ∈ l, ∃ kind, leading (f a).toList = some kind)
    (item' : ∀ b ∈ l', ∃ kind, leading (g b).toList = some kind)
    (same : (tupleText (l.map f)).toList ++ s = (tupleText (l'.map g)).toList ++ t) :
    List.Forall₂ P l l' ∧ s = t := by
  rw [toList_tupleText, toList_tupleText, List.map_map, List.map_map, List.length_map,
    List.length_map] at same
  obtain ⟨all, rest⟩ := listed_apart each item item' ends_tupleEnding ends_tupleEnding
    (List.cons.inj same).2
  rw [all.length_eq] at rest
  exact ⟨all, tupleEnding_inj rest⟩

end

section

variable {P : Value → Value → Prop} {f g : Value → String} {p q : Value × Value}

/-- An entry is told by what its key and its value are told by. -/
theorem pairText_apart (key : ApartUnless (P p.1 q.1) (f p.1).toList (g q.1).toList)
    (value : ApartUnless (P p.2 q.2) (f p.2).toList (g q.2).toList) :
    ApartUnless (P p.1 q.1 ∧ P p.2 q.2) (pairText f p).toList (pairText g q).toList := by
  intro s t hs ht same
  simp only [pairText, String.toList_append, List.append_assoc] at same
  obtain ⟨keys, rest⟩ := key _ _ rfl rfl same
  obtain ⟨values, rest⟩ := value s t hs ht (List.append_cancel_left rest)
  exact ⟨⟨keys, values⟩, rest⟩

/-- An entry begins as its key does. -/
theorem leading_pairText {kind : TypeTag} (hk : leading (f p.1).toList = some kind) :
    leading (pairText f p).toList = some kind := by
  rw [pairText, String.toList_append, String.toList_append, List.append_assoc]
  exact leading_append hk

end

/-- What is in a literal is written with something in front that tells its kind. -/
theorem Literal.leading_child (hv : h.Literal v) (hn : h.Nests n v) (hf : n < fuel + 1)
    (hw : w ∈ h.children v) : ∃ kind, leading (h.write fuel true w).toList = some kind := by
  obtain ⟨m, hlt, -⟩ := hn.child hw
  exact ⟨w.tag, (hv.child hw).leading_write (by omega)⟩

/-- Written forms of literals are apart unless the literals are identical, when each may follow
    containers as far as they nest. -/
theorem Literal.write_apart (hv : h.Literal v) (hw : h'.Literal w) (hn : h.Nests n v)
    (hn' : h'.Nests n' w) (hf : n < fuel) (hf' : n' < fuel') :
    ApartUnless (Identical h h' v w) (h.write fuel true v).toList
      (h'.write fuel' true w).toList := by
  induction fuel generalizing v w n n' fuel' with
  | zero => exact absurd hf (Nat.not_lt_zero n)
  | succ fuel ih =>
  cases fuel' with
  | zero => exact absurd hf' (Nat.not_lt_zero n')
  | succ fuel' =>
  intro s t hs ht same
  -- the first characters agree, so that the values are of one kind
  have kinds : v.tag = w.tag := by
    have first := congrArg leading same
    rw [leading_append (hv.leading_write (Nat.succ_pos _)),
      leading_append (hw.leading_write (Nat.succ_pos _))] at first
    exact Option.some.inj first
  -- what is in the containers is written with less fuel, and nests less deep
  have inside {a b : Value} (ha : a ∈ h.children v) (hb : b ∈ h'.children w) :
      ApartUnless (Identical h h' a b) (h.write fuel true a).toList
        (h'.write fuel' true b).toList := by
    obtain ⟨m, hlt, nests⟩ := hn.child ha
    obtain ⟨m', hlt', nests'⟩ := hn'.child hb
    exact ih (hv.child ha) (hw.child hb) nests nests' (by omega) (by omega)
  have item {a : Value} (ha : a ∈ h.children v) := hv.leading_child hn hf ha
  have item' {b : Value} (hb : b ∈ h'.children w) := hw.leading_child hn' hf' hb
  cases hv with
  | none =>
    cases hw with
    | none =>
      rw [write_none, write_none] at same
      exact ⟨.none, List.append_cancel_left same⟩
    | _ => cases kinds
  | bool b =>
    cases hw with
    | bool b' =>
      rw [write_bool, write_bool] at same
      cases b <;> cases b'
      · exact ⟨.bool _, List.append_cancel_left same⟩
      · exact absurd (List.cons.inj same).1 (by decide)
      · exact absurd (List.cons.inj same).1 (by decide)
      · exact ⟨.bool _, List.append_cancel_left same⟩
    | _ => cases kinds
  | int n =>
    cases hw with
    | int n' =>
      obtain ⟨rfl, rest⟩ := Integer.text_apart _ _ s t hs ht same
      exact ⟨.int _, rest⟩
    | _ => cases kinds
  | str a =>
    cases hw with
    | str b =>
      obtain ⟨rfl, rest⟩ := Text.quote_apart _ _ s t hs ht same
      exact ⟨.str _, rest⟩
    | _ => cases kinds
  | tuple =>
    cases hw with
    | tuple =>
      rw [write_tuple, write_tuple] at same
      obtain ⟨all, rest⟩ := tupleText_apart (f := h.write fuel true) (g := h'.write fuel' true)
        (fun a ha b hb => inside ha hb) (fun a ha => item ha) (fun b hb => item' hb) same
      exact ⟨.tuple all, rest⟩
    | _ => cases kinds
  | list =>
    cases hw with
    | list =>
      rw [write_list, write_list] at same
      obtain ⟨all, rest⟩ := bracket_apart (c := ']') (f := h.write fuel true)
        (g := h'.write fuel' true) rfl rfl (by decide)
        (fun a ha b hb => inside ha hb) (fun a ha => item ha) (fun b hb => item' hb) same
      exact ⟨.list all, rest⟩
    | _ => cases kinds
  | dict =>
    cases hw with
    | dict =>
      rw [write_dict, write_dict] at same
      obtain ⟨all, rest⟩ := bracket_apart (c := '\x7d') (f := pairText (h.write fuel true))
        (g := pairText (h'.write fuel' true)) rfl rfl (by decide)
        (fun p hp q hq => pairText_apart (inside (key_mem_children hp) (key_mem_children hq))
          (inside (value_mem_children hp) (value_mem_children hq)))
        (fun p hp => (item (key_mem_children hp)).imp fun _ => leading_pairText)
        (fun q hq => (item' (key_mem_children hq)).imp fun _ => leading_pairText) same
      exact ⟨identical_dict_iff.mpr all, rest⟩
    | _ => cases kinds

/-- Items that are related are written alike if related items are. -/
theorem map_eq_of_forall₂ {α β γ : Type} {R : α → β → Prop} {f : α → γ} {g : β → γ} {l : List α}
    {l' : List β} (all : List.Forall₂ R l l')
    (each : ∀ a ∈ l, ∀ b ∈ l', R a b → f a = g b) : l.map f = l'.map g := by
  induction all with
  | nil => rfl
  | cons first _ ih =>
    rw [List.map_cons, List.map_cons, each _ List.mem_cons_self _ List.mem_cons_self first,
      ih fun a ha b hb => each a (List.mem_cons_of_mem _ ha) b (List.mem_cons_of_mem _ hb)]

/-- Identical values are written alike when each may follow containers as far as they nest. -/
theorem Identical.write_eq (same : Identical h h' v w) (hn : h.Nests n v) (hn' : h'.Nests n' w)
    (hf : n < fuel) (hf' : n' < fuel') : h.write fuel true v = h'.write fuel' true w := by
  induction fuel generalizing v w n n' fuel' with
  | zero => exact absurd hf (Nat.not_lt_zero n)
  | succ fuel ih =>
  cases fuel' with
  | zero => exact absurd hf' (Nat.not_lt_zero n')
  | succ fuel' =>
  have inside {a b : Value} (same : Identical h h' a b) (ha : a ∈ h.children v)
      (hb : b ∈ h'.children w) : h.write fuel true a = h'.write fuel' true b := by
    obtain ⟨m, hlt, nests⟩ := hn.child ha
    obtain ⟨m', hlt', nests'⟩ := hn'.child hb
    exact ih same nests nests' (by omega) (by omega)
  cases same with
  | none | bool | int | str => rfl
  | tuple all =>
    rw [write_tuple, write_tuple, map_eq_of_forall₂ all fun a ha b hb same => inside same ha hb]
  | list all =>
    rw [write_list, write_list, map_eq_of_forall₂ all fun a ha b hb same => inside same ha hb]
  | dict keys values =>
    rw [write_dict, write_dict, map_eq_of_forall₂ (forall₂_entries.mpr ⟨keys, values⟩)
      fun p hp q hq same => ?_]
    rw [pairText, pairText, inside same.1 (key_mem_children hp) (key_mem_children hq),
      inside same.2 (value_mem_children hp) (value_mem_children hq)]

end Heap

/-- **The quoted form of a value tells the value.**  Two literals, perhaps on two heaps, have
    the same quoted form just if they are identical: of the same type, and, if they are
    containers, with identical items in the same order. -/
theorem repr_distinguishes (h h' : Heap) (v w : Value) (hv : h.Literal v) (hw : h'.Literal w) :
    h.repr v = h'.repr w ↔ Heap.Identical h h' v w := by
  obtain ⟨n, hlt, nests⟩ := hv.nests
  obtain ⟨n', hlt', nests'⟩ := hw.nests
  have deep := Nat.lt_succ_of_lt hlt
  have deep' := Nat.lt_succ_of_lt hlt'
  exact ⟨fun same => (hv.write_apart hw nests nests' deep deep').of_eq (congrArg _ same),
    fun same => same.write_eq nests nests' deep deep'⟩

/-! ### Texts that spell what stands between items -/

/-- Two tuples, one of a single text that spells the quotes and the comma between the items of
    the other one; and two lists with them, the one with a boolean and the other with an
    integer. -/
def Heap.lookalikes : Heap where
  tuples := #[#[.str "a', 'b"], #[.str "a", .str "b"]]
  lists := #[#[.tuple 0, .bool true], #[.tuple 1, .int 1]]

/-- The first of the lists, and its tuple, at other references. -/
def Heap.moved : Heap where
  tuples := #[#[], #[.str "a', 'b"]]
  lists := #[#[], #[.tuple 1, .bool true]]

theorem repr_distinguishes_of_lookalikes :
    Heap.lookalikes.Literal (.list 0) ∧ Heap.lookalikes.Literal (.list 1) ∧
      Heap.moved.Literal (.list 1) ∧
      Heap.lookalikes.repr (.list 0) ≠ Heap.lookalikes.repr (.list 1) ∧
      Heap.lookalikes.repr (.list 0) = Heap.moved.repr (.list 1) := by
  have first : Heap.lookalikes.Literal (.list 0) :=
    .list (r := 0) (by
      simpa [Heap.lookalikes, Heap.list] using
        ⟨.tuple (r := 0) (by simp [Heap.tuple, Heap.Literal.str]), .bool true⟩)
  have second : Heap.lookalikes.Literal (.list 1) :=
    .list (r := 1) (by
      simpa [Heap.lookalikes, Heap.list] using
        ⟨.tuple (r := 1) (by simp [Heap.tuple, Heap.Literal.str]), .int 1⟩)
  have moved : Heap.moved.Literal (.list 1) :=
    .list (r := 1) (by
      simpa [Heap.moved, Heap.list] using
        ⟨.tuple (r := 1) (by simp [Heap.tuple, Heap.Literal.str]), .bool true⟩)
  have tuples : Heap.Identical .lookalikes .moved (.tuple 0) (.tuple 1) :=
    .tuple (.cons (.str _) .nil)
  have lists : Heap.Identical .lookalikes .moved (.list 0) (.list 1) :=
    .list (.cons tuples (.cons (.bool true) .nil))
  refine ⟨first, second, moved, fun same => ?_,
    (repr_distinguishes _ _ _ _ first moved).mpr lists⟩
  cases (repr_distinguishes _ _ _ _ first second).mp same with
  | list items =>
    cases items with
    | cons _ rest =>
      cases rest with
      | cons number _ => cases number

end TieredMachine
