/-
  Integer operators on words.

  Operators can be computed on 64-bit words alone: a division rounds towards zero and is then
  put right, and a shift to the left is shifted back to see what it lost.  Every step of such a
  computation is one that a word has a result for, and in the end its answer is the one of
  checked arithmetic.

  * `Integer.Step`, `Integer.binaryWords`: operators computed step by step on words;
  * `Integer.binaryWords_ok`: no step fails, and the answer is the same;
  * `Integer.arithmetic_exact`: what an operator answers and raises, and when.
-/
import TieredMachine.Operation.Arithmetic
import TieredMachine.Proofs.Generator.Resume
import TieredMachine.Proofs.Integer.Exact

namespace TieredMachine

namespace Integer

/-! ## Steps -/

/-- A step of a computation on words fails where a machine has no word to answer. -/
abbrev Step := Option Int64

namespace Step

def add (a b : Int64) : Step := ofInt? (a.toInt + b.toInt)

def sub (a b : Int64) : Step := ofInt? (a.toInt - b.toInt)

/-- There is no quotient by zero, and that of the least word by `-1` is no word. -/
def Divides (a b : Int64) : Prop := b ≠ 0 ∧ ¬(a = Int64.minValue ∧ b = -1)

instance (a b : Int64) : Decidable (Divides a b) := inferInstanceAs (Decidable (_ ∧ _))

/-- The quotient, rounded towards zero. -/
def quotient (a b : Int64) : Step := if Divides a b then some (a / b) else none

/-- The remainder of that quotient. -/
def remainder (a b : Int64) : Step := if Divides a b then some (a % b) else none

/-- Whether a word can be shifted by that number of places. -/
def Places (n : Int64) : Prop := 0 ≤ n ∧ n < 64

instance (n : Int64) : Decidable (Places n) := inferInstanceAs (Decidable (_ ∧ _))

/-- The word shifted to the left; what leaves it is lost. -/
def left (a n : Int64) : Step := if Places n then some (a <<< n) else none

/-- The word shifted to the right; its sign comes in. -/
def right (a n : Int64) : Step := if Places n then some (a >>> n) else none

end Step

/-! ## Operators -/

/-- The quotient, rounded down. -/
def quotientWords (a b : Int64) : Option (Except ArithError Int64) :=
  match Step.quotient a b with
  | none => some (.error .overflow)
  | some q => do
    let r ← Step.remainder a b
    if r ≠ 0 ∧ (a < 0 ↔ ¬b < 0) then return .ok (← Step.sub q 1) else return .ok q

/-- The remainder with the sign of the divisor. -/
def remainderWords (a b : Int64) : Option (Except ArithError Int64) := do
  let r := (Step.remainder a b).getD 0
  if r ≠ 0 ∧ (r < 0 ↔ ¬b < 0) then return .ok (← Step.add r b) else return .ok r

/-- The word shifted to the left, and overflow if shifting back does not bring it back. -/
def leftWords (a n : Int64) : Option (Except ArithError Int64) := do
  if a = 0 then return .ok 0
  if 63 ≤ n then return .error .overflow
  let r ← Step.left a n
  let back ← Step.right r n
  if back ≠ a then return .error .overflow else return .ok r

/-- A power with an exponent of 32 bits. -/
def powerWords (a n : Int64) : Except ArithError Int64 :=
  if 2 ^ 32 ≤ n.toInt then .error .overflow else checked (a.toInt ^ n.toInt.toNat)

/-- A binary operator on words; nothing when a step of it fails. -/
def binaryWords (op : BinaryOp) (a b : Int64) : Option (Except ArithError (Option Int64)) :=
  match op with
  | .add => some (some <$> checked (a.toInt + b.toInt))
  | .sub => some (some <$> checked (a.toInt - b.toInt))
  | .mul => some (some <$> checked (a.toInt * b.toInt))
  | .floorDiv =>
    if b = 0 then some (.error .zeroDivision) else (some <$> ·) <$> quotientWords a b
  | .mod => if b = 0 then some (.error .zeroDivision) else (some <$> ·) <$> remainderWords a b
  | .pow => if b < 0 then some (.ok none) else some (some <$> powerWords a b)
  | .lshift =>
    if b < 0 then some (.error .negativeShift) else (some <$> ·) <$> leftWords a b
  | .rshift =>
    if b < 0 then some (.error .negativeShift)
    else (fun r => .ok (some r)) <$> Step.right a (min b 63)
  | .and => some (.ok (some (a &&& b)))
  | .or => some (.ok (some (a ||| b)))
  | .xor => some (.ok (some (a ^^^ b)))
  | .trueDiv | .getItem => some (.ok none)

/-! ### Quotients and remainders -/

section

variable {a b : Int64}

theorem neg_iff : a < 0 ↔ a.toInt < 0 := Int64.lt_iff_toInt_lt

theorem toInt_eq_zero_iff : a = 0 ↔ a.toInt = 0 := Int64.toInt_inj.symm

/-- A quotient and a remainder that has the sign of the divisor are the ones rounded down. -/
theorem fdiv_fmod_unique {a b q r : Int} (h : a = q * b + r)
    (hr : 0 ≤ r ∧ r < b ∨ b < r ∧ r ≤ 0) : a.fdiv b = q ∧ a.fmod b = r := by
  have nonzero : b ≠ 0 := by omega
  have whole := fdiv_add_fmod a b
  have same : a.fdiv b = q := (eq_floor whole (fmod_bounds a nonzero)).trans (eq_floor h hr).symm
  rw [same] at whole
  exact ⟨same, by omega⟩

/-- A remainder of a quotient rounded towards zero is smaller than the divisor, and has the sign
    of the dividend. -/
theorem tmod_bounds (a : Int) {b : Int} (hb : b ≠ 0) :
    (a.tmod b).natAbs < b.natAbs ∧ (0 ≤ a → 0 ≤ a.tmod b) ∧ (a < 0 → a.tmod b ≤ 0) := by
  refine ⟨?_, fun positive => Int.tmod_nonneg b positive, fun negative => ?_⟩
  · rw [Int.natAbs_tmod]
    exact Nat.mod_lt _ (by omega)
  · have := Int.tmod_nonneg (a := -a) b (by omega)
    rw [Int.neg_tmod] at this
    omega

/-- How a quotient that is rounded towards zero is put right. -/
theorem fdiv_fmod_eq (a : Int) {b : Int} (hb : b ≠ 0) :
    if a.tmod b ≠ 0 ∧ (a < 0 ↔ ¬b < 0) then
      a.fdiv b = a.tdiv b - 1 ∧ a.fmod b = a.tmod b + b
    else a.fdiv b = a.tdiv b ∧ a.fmod b = a.tmod b := by
  have whole : a = a.tdiv b * b + a.tmod b := by
    have := Int.mul_tdiv_add_tmod a b
    rw [Int.mul_comm] at this
    exact this.symm
  obtain ⟨small, positive, negative⟩ := tmod_bounds a hb
  split
  · refine fdiv_fmod_unique ?_ (by omega)
    rw [Int.sub_mul]
    omega
  · exact fdiv_fmod_unique whole (by omega)

/-- Quotients other than that of the least word by `-1` are words. -/
theorem toInt_quotient (h : Step.Divides a b) : (a / b).toInt = a.toInt.tdiv b.toInt := by
  by_cases least : a = Int64.minValue
  · exact Int64.toInt_div_of_ne_right a b fun minus => h.2 ⟨least, minus⟩
  · exact Int64.toInt_div_of_ne_left a b least

theorem fits_fmod (a : Int64) (hb : b ≠ 0) : Fits (a.toInt.fmod b.toInt) := by
  have low := b.le_toInt
  have high := b.toInt_lt
  have := fmod_bounds a.toInt (mt toInt_eq_zero_iff.mpr hb)
  constructor <;> omega

/-- A quotient that is put right is a word as well: it is smaller than the dividend, or the
    divisor is 1 and nothing is left. -/
theorem fits_fdiv (h : Step.Divides a b) : Fits (a.toInt.fdiv b.toInt) := by
  have nonzero := mt toInt_eq_zero_iff.mpr h.1
  have fixed := fdiv_fmod_eq a.toInt nonzero
  have whole := fits_toInt (a / b)
  rw [toInt_quotient h] at whole
  split at fixed
  · rename_i opposite
    rw [fixed.1]
    refine ⟨?_, by have := whole.2; omega⟩
    -- the quotient is not the least word, for then the divisor was 1
    have low := a.le_toInt
    have size : (a.toInt.tdiv b.toInt).natAbs = a.toInt.natAbs / b.toInt.natAbs :=
      Int.natAbs_tdiv _ _
    obtain ⟨small, -, -⟩ := tmod_bounds a.toInt nonzero
    have several : 2 ≤ b.toInt.natAbs := by omega
    have half : a.toInt.natAbs / b.toInt.natAbs ≤ a.toInt.natAbs / 2 :=
      Nat.div_le_div_left several (by decide)
    have high := a.toInt_lt
    omega
  · rw [fixed.1]
    exact whole

theorem not_fits_quotient (hb : b ≠ 0) (h : ¬Step.Divides a b) :
    ¬Fits (a.toInt.fdiv b.toInt) := by
  have least : a = Int64.minValue ∧ b = -1 := by
    by_contra other
    exact h ⟨hb, other⟩
  obtain ⟨rfl, rfl⟩ := least
  rintro ⟨-, high⟩
  exact absurd high (by decide)

theorem ofInt?_of_fits {n : Int} (h : Fits n) : ofInt? n = some (Int64.ofInt n) := if_pos h

theorem quotientWords_ok (hb : b ≠ 0) :
    quotientWords a b = some (checked (a.toInt.fdiv b.toInt)) := by
  unfold quotientWords Step.quotient Step.remainder
  by_cases h : Step.Divides a b
  · have fixed := fdiv_fmod_eq a.toInt (mt toInt_eq_zero_iff.mpr hb)
    have fits := fits_fdiv h
    have cond : (a % b ≠ 0 ∧ (a < 0 ↔ ¬b < 0)) ↔
        a.toInt.tmod b.toInt ≠ 0 ∧ (a.toInt < 0 ↔ ¬b.toInt < 0) := by
      rw [ne_eq, toInt_eq_zero_iff, Int64.toInt_mod, neg_iff, neg_iff]
    rw [if_pos h, if_pos h]
    show (if _ then _ else _) = _
    rw [if_congr cond rfl rfl, checked_of_fits fits]
    split
    · rename_i opposite
      rw [if_pos opposite] at fixed
      rw [fixed.1] at fits ⊢
      show (Step.sub (a / b) 1 >>= _) = _
      have one : (1 : Int64).toInt = 1 := rfl
      rw [Step.sub, toInt_quotient h, one, ofInt?_of_fits fits]
      rfl
    · rename_i same
      rw [if_neg same] at fixed
      rw [fixed.1, ← toInt_quotient h, Int64.ofInt_toInt]
      rfl
  · rw [if_neg h, checked_of_not_fits (not_fits_quotient hb h)]

theorem remainderWords_ok (hb : b ≠ 0) :
    remainderWords a b = some (checked (a.toInt.fmod b.toInt)) := by
  -- the one remainder that no step computes is zero
  have rest : ((Step.remainder a b).getD 0).toInt = a.toInt.tmod b.toInt := by
    rw [Step.remainder]
    split
    · exact Int64.toInt_mod a b
    · rename_i h
      have least : a = Int64.minValue ∧ b = -1 := by
        by_contra other
        exact h ⟨hb, other⟩
      obtain ⟨rfl, rfl⟩ := least
      decide
  have nonzero := mt toInt_eq_zero_iff.mpr hb
  have fixed := fdiv_fmod_eq a.toInt nonzero
  have fits := fits_fmod a hb
  unfold remainderWords
  generalize (Step.remainder a b).getD 0 = r at rest ⊢
  obtain ⟨-, positive, negative⟩ := tmod_bounds a.toInt nonzero
  have cond : (r ≠ 0 ∧ (r < 0 ↔ ¬b < 0)) ↔
      a.toInt.tmod b.toInt ≠ 0 ∧ (a.toInt < 0 ↔ ¬b.toInt < 0) := by
    rw [ne_eq, toInt_eq_zero_iff, neg_iff, neg_iff, rest]
    omega
  show (if _ then _ else _) = _
  rw [if_congr cond rfl rfl, checked_of_fits fits]
  split
  · rename_i opposite
    rw [if_pos opposite] at fixed
    rw [fixed.2] at fits ⊢
    show (Step.add r b >>= _) = _
    rw [Step.add, rest, ofInt?_of_fits fits]
    rfl
  · rename_i same
    rw [if_neg same] at fixed
    rw [fixed.2, ← rest, Int64.ofInt_toInt]
    rfl

/-! ### Shifts -/

/-- A number of places, as a word and as a number. -/
theorem places_smod {n : Int64} (h : Step.Places n) :
    (n.toBitVec.smod 64).toNat = n.toInt.toNat := by
  have low : 0 ≤ n.toInt := Int64.le_iff_toInt_le.mp h.1
  have high : n.toInt < 64 := Int64.lt_iff_toInt_lt.mp h.2
  have value : (n.toBitVec.smod 64).toInt = n.toInt := by
    rw [BitVec.toInt_smod, Int64.toInt_toBitVec]
    show n.toInt.fmod 64 = _
    rw [Int.fmod_eq_emod_of_nonneg _ (by decide), Int.emod_eq_of_lt low high]
  have := BitVec.toInt_eq_toNat_cond (n.toBitVec.smod 64)
  split at this <;> omega

theorem toInt_shiftLeft {n : Int64} (h : Step.Places n) :
    (a <<< n).toInt = (a.toInt * 2 ^ n.toInt.toNat).bmod (2 ^ 64) := by
  rw [← Int64.toInt_toBitVec, Int64.toBitVec_shiftLeft, BitVec.shiftLeft_eq', places_smod h,
    BitVec.toInt_shiftLeft, Nat.shiftLeft_eq, ← Int64.toInt_toBitVec a, BitVec.toInt_eq_toNat_bmod,
    Int.bmod_mul_bmod]
  push_cast
  rfl

theorem toInt_shiftRight {n : Int64} (h : Step.Places n) :
    (a >>> n).toInt = a.toInt.fdiv (2 ^ n.toInt.toNat) := by
  rw [← Int64.toInt_toBitVec, Int64.toBitVec_shiftRight, BitVec.sshiftRight_eq', places_smod h,
    BitVec.toInt_sshiftRight, Int.shiftRight_eq_div_pow, Int64.toInt_toBitVec,
    Int.fdiv_eq_ediv_of_nonneg _ (by positivity)]
  push_cast
  rfl

/-- A word that is shifted to the left and back is the same again just if nothing was lost. -/
theorem shifted_back_iff {n : Int64} (h : Step.Places n) :
    (a <<< n) >>> n = a ↔ Fits (a.toInt * 2 ^ n.toInt.toNat) := by
  have power : (0 : Int) < 2 ^ n.toInt.toNat := by positivity
  rw [← Int64.toInt_inj, toInt_shiftRight h, Int.fdiv_eq_ediv_of_nonneg _ (by omega)]
  constructor
  · intro back
    -- what is left after the shift is a multiple of that power, as the word is that was shifted
    have whole : (2 : Int) ^ n.toInt.toNat ∣ (a <<< n).toInt := by
      have few : n.toInt < 64 := Int64.lt_iff_toInt_lt.mp h.2
      have modulus : (2 : Int) ^ n.toInt.toNat ∣ ((2 ^ 64 : Nat) : Int) := by
        rw [Nat.cast_pow]
        exact pow_dvd_pow 2 (show n.toInt.toNat ≤ 64 by omega)
      rw [toInt_shiftLeft h, Int.bmod_eq_self_sub_bdiv_mul]
      exact Int.dvd_sub (Int.dvd_mul_left _ _) (modulus.mul_left _)
    have same := Int.ediv_mul_cancel whole
    rw [back] at same
    rw [same]
    exact fits_toInt _
  · intro fits
    have same : (a <<< n).toInt = a.toInt * 2 ^ n.toInt.toNat := by
      rw [toInt_shiftLeft h]
      have low := fits.1
      have high := fits.2
      exact Int.bmod_eq_of_le (by omega) (by omega)
    rw [same]
    exact Int.mul_ediv_cancel _ (by omega)

theorem leftWords_ok (hb : ¬b < 0) : leftWords a b = some (shiftLeft a b.toInt.toNat) := by
  have count := toNat_toInt hb
  unfold leftWords shiftLeft
  by_cases zero : a = 0
  · rw [if_pos zero, if_pos zero]
    rfl
  · rw [if_neg zero, if_neg zero]
    by_cases long : 63 ≤ b
    · have long' : (63 : Int) ≤ b.toInt := Int64.le_iff_toInt_le.mp long
      rw [if_pos (show 63 ≤ b.toInt.toNat by omega)]
      show (if _ then _ else _) = _
      rw [if_pos long]
      rfl
    · have short : b.toInt < 63 := by
        have : ¬(63 : Int) ≤ b.toInt := fun le => long (Int64.le_iff_toInt_le.mpr le)
        omega
      have places : Step.Places b :=
        ⟨Int64.le_iff_toInt_le.mpr (show (0 : Int) ≤ _ by omega),
          Int64.lt_iff_toInt_lt.mpr (show _ < (64 : Int) by omega)⟩
      rw [if_neg (show ¬63 ≤ b.toInt.toNat by omega)]
      show (if _ then _ else Step.left a b >>= fun r => Step.right r b >>= _) = _
      rw [if_neg long, Step.left, if_pos places]
      show (Step.right _ b >>= _) = _
      rw [Step.right, if_pos places]
      show (if _ then _ else _) = some (checked (a.toInt * 2 ^ b.toInt.toNat))
      by_cases fits : Fits (a.toInt * 2 ^ b.toInt.toNat)
      · rw [if_neg (not_not.mpr ((shifted_back_iff places).mpr fits)), checked_of_fits fits]
        have value : (a <<< b).toInt = a.toInt * 2 ^ b.toInt.toNat := by
          rw [toInt_shiftLeft places]
          have low := fits.1
          have high := fits.2
          exact Int.bmod_eq_of_le (by omega) (by omega)
        rw [← value, Int64.ofInt_toInt]
        rfl
      · rw [if_pos (mt (shifted_back_iff places).mp fits), checked_of_not_fits fits]
        rfl

theorem right_ok (hb : ¬b < 0) :
    ∃ c, Step.right a (min b 63) = some c ∧
      checked (a.toInt.fdiv (2 ^ min b.toInt.toNat 63)) = .ok c := by
  have count := toNat_toInt hb
  have value : (min b 63).toInt = min b.toInt 63 := Sequence.toInt_min b 63
  have places : Step.Places (min b 63) :=
    ⟨Int64.le_iff_toInt_le.mpr (show (0 : Int) ≤ _ by omega),
      Int64.lt_iff_toInt_lt.mpr (show _ < (64 : Int) by omega)⟩
  have same : (min b 63).toInt.toNat = min b.toInt.toNat 63 := by omega
  refine ⟨_, if_pos places, ?_⟩
  rw [← same, ← toInt_shiftRight places]
  exact checked_toInt _

/-! ### All operators -/

theorem powerWords_ok (hb : ¬b < 0) : powerWords a b = power a b.toInt.toNat := by
  have count := toNat_toInt hb
  rw [powerWords]
  split
  · rename_i long
    have long' : UInt32.size ≤ b.toInt.toNat := show 2 ^ 32 ≤ b.toInt.toNat by omega
    rw [power, if_pos long']
  · exact (power_eq a (by omega)).symm

/-- **No step fails**, and the answer on words is the one of checked arithmetic. -/
theorem binaryWords_ok (op : BinaryOp) (a b : Int64) :
    binaryWords op a b = some (binary op a b) := by
  rw [binaryWords.eq_def, binary.eq_def]
  cases op with
  | add | sub | mul | and | or | xor | trueDiv | getItem => rfl
  | floorDiv =>
    by_cases zero : b = 0
    · simp only [if_pos zero]
    · simp only [if_neg zero, quotientWords_ok zero]
      rfl
  | mod =>
    by_cases zero : b = 0
    · simp only [if_pos zero]
    · simp only [if_neg zero, remainderWords_ok zero]
      rfl
  | pow =>
    by_cases negative : b < 0
    · simp only [if_pos negative]
    · simp only [if_neg negative, powerWords_ok negative]
  | lshift =>
    by_cases negative : b < 0
    · simp only [if_pos negative]
    · simp only [if_neg negative, leftWords_ok negative]
      rfl
  | rshift =>
    by_cases negative : b < 0
    · simp only [if_pos negative]
    · obtain ⟨c, shifted, value⟩ := right_ok (a := a) negative
      have value' : checked (a.toInt.fdiv (Int.pow 2 (min b.toInt.toNat 63))) = .ok c := value
      simp only [if_neg negative, shifted, value']
      rfl

end

/-! ## Answers and exceptions -/

/-- The class of the exception of a failed operation. -/
def ArithError.kind : ArithError → ExceptionKind
  | .overflow => .overflowError
  | .zeroDivision => .zeroDivisionError
  | .negativeShift => .valueError

end Integer

/-- An operation that has the answer on every machine, and changes nothing. -/
def Exec.Answers {α : Type} (x : Exec α) (a : α) : Prop := ∀ m, x m = .ok a m

/-- An operation that raises a new exception of that class on every machine, and changes nothing
    else. -/
def Exec.Raises {α : Type} (x : Exec α) (kind : ExceptionKind) : Prop :=
  ∃ text, ∀ m, x m = m.raising kind [.str text]

namespace Integer

section

variable {α : Type} {kind kind' : ExceptionKind} {x : Except ArithError α} {e : ArithError} {a : α}

theorem kind_of_raising {m : Machine} {args args' : List Value}
    (h : m.raising (α := α) kind args = m.raising kind' args') : kind = kind' := by
  have newest (kind : ExceptionKind) (args : List Value) :
      (m.mapHeap fun h => (h.newException { kind, args := args.toArray }).2).heap.exceptions.back? =
        some { kind, args := args.toArray } :=
    Array.back?_push
  injection h with _ same
  have last := newest kind args
  rw [same, newest kind' args'] at last
  injection last with last
  injection last with last
  exact last.symm

theorem arithError_raises (e : ArithError) : Exec.Raises (arithError (α := α) e) e.kind := by
  cases e with
  | overflow | zeroDivision | negativeShift => exact ⟨_, fun _ => rfl⟩

theorem ofArith_answers : Exec.Answers (ofArith x) a ↔ x = .ok a := by
  constructor
  · intro answers
    cases x with
    | ok a' =>
      cases answers default
      rfl
    | error e =>
      obtain ⟨text, raises⟩ := arithError_raises (α := α) e
      cases (raises default).symm.trans (answers default)
  · rintro rfl m
    rfl

theorem ofArith_raises : Exec.Raises (ofArith x) e.kind ↔ x = .error e := by
  constructor
  · rintro ⟨text, raises⟩
    cases x with
    | ok a => cases raises default
    | error e' =>
      obtain ⟨text', raises'⟩ := arithError_raises (α := α) e'
      have same := kind_of_raising ((raises' default).symm.trans (raises default))
      -- each failure has a class of its own
      cases e <;> cases e' <;> cases same <;> rfl
  · rintro rfl
    exact arithError_raises e

end

/-- What an operator on two words promises. -/
structure Promise (op : BinaryOp) (a b : Int64) : Prop where
  /-- the exact result, if it is a word and not missed -/
  answers (r : Int64) : Exec.Answers (ofArith (binary op a b)) (some r) ↔
    op.Exact a.toInt b.toInt r.toInt ∧ ¬op.Misses a b
  overflows : Exec.Raises (ofArith (binary op a b)) .overflowError ↔
    (∃ n, op.Exact a.toInt b.toInt n ∧ ¬Fits n) ∨ op.Misses a b
  /-- what is missed is a word -/
  misses : op.Misses a b → ∃ n, op.Exact a.toInt b.toInt n ∧ Fits n
  dividesByZero : Exec.Raises (ofArith (binary op a b)) .zeroDivisionError ↔ op.DividesByZero b
  shiftsBack : Exec.Raises (ofArith (binary op a b)) .valueError ↔ op.ShiftsBack b
  leaves : Exec.Answers (ofArith (binary op a b)) none ↔ op.LeavesIntegers b
  /-- no step on words fails -/
  steps : binaryWords op a b = some (binary op a b)

/-- **Integer arithmetic is exact**, but for what it misses: operators answer their exact result
    if it is a word, and raise an exception for every reason that there is none.  Quotient and
    remainder make up the dividend. -/
theorem arithmetic_exact (a b : Int64) :
    (∀ op, Promise op a b) ∧
      ∀ q r, Exec.Answers (ofArith (binary .floorDiv a b)) (some q) →
        Exec.Answers (ofArith (binary .mod a b)) (some r) →
          a.toInt = q.toInt * b.toInt + r.toInt := by
  have outcome (op : BinaryOp) := binary_outcome op a b
  refine ⟨fun op => ?_, fun q r quotient remainder => ?_⟩
  · exact {
      answers := fun r => ofArith_answers.trans ((outcome op).answers_iff r)
      overflows := ofArith_raises.trans (outcome op).overflow_iff
      misses := BinaryOp.Misses.value
      dividesByZero := ofArith_raises.trans (outcome op).zeroDivision_iff
      shiftsBack := ofArith_raises.trans (outcome op).negativeShift_iff
      leaves := ofArith_answers.trans (outcome op).leaves_iff
      steps := binaryWords_ok op a b }
  · obtain ⟨⟨-, floor⟩, -⟩ :=
      ((outcome .floorDiv).answers_iff q).mp (ofArith_answers.mp quotient)
    obtain ⟨⟨⟨q', whole⟩, small⟩, -⟩ :=
      ((outcome .mod).answers_iff r).mp (ofArith_answers.mp remainder)
    have same : q' = q.toInt := (eq_floor whole small).trans floor.symm
    rw [← same]
    exact whole

/-- Two results that are words and raise all the same: `-1` shifted by 63 places is the least
    word, and 1 is a power of 1. -/
theorem words_are_missed :
    (BinaryOp.lshift.Exact (-1) 63 Int64.minValue.toInt ∧
      Exec.Raises (ofArith (binary .lshift (-1) 63)) .overflowError) ∧
    (BinaryOp.pow.Exact 1 (2 ^ 32) 1 ∧
      Exec.Raises (ofArith (binary .pow 1 4294967296)) .overflowError) := by
  refine ⟨⟨⟨by decide, rfl⟩, ?_⟩, ⟨by decide, (one_pow _).symm⟩, ?_⟩
  · exact ofArith_raises.mpr rfl
  · exact ofArith_raises.mpr rfl

end Integer

end TieredMachine
