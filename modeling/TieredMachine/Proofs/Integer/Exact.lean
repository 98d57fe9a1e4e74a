/-
  Exact results of integer operators.

  Each operator has a result in the mathematical sense, said here without words: quotients are
  rounded down, a remainder has the sign of the divisor, a shift multiplies by a power of two or
  divides by one, and bits are those of two's complement, the sign going on for ever.  Checked
  arithmetic answers that result wherever it is a word, but for two kinds of operands.

  * `BinaryOp.Exact`: the exact result, and `BinaryOp.Exact.unique`;
  * `BinaryOp.Misses`: the operands whose result is a word and counts as overflow all the same;
  * `Integer.Outcome`, `Integer.binary_outcome`: the five ways in which an operator answers.
-/
import Mathlib.Algebra.Order.Field.Rat
import Mathlib.Data.Int.Bitwise
import Mathlib.Data.Rat.Floor
import Mathlib.Tactic.Linarith
import TieredMachine.Proofs.Sequence.Span

namespace TieredMachine

/-! ## Results in the mathematical sense -/

namespace BinaryOp

/-- An integer is the exact result of an operator on two integers.  Division by zero, shifts by
    a negative count, powers with a negative exponent and the operators that leave the integers
    have none. -/
def Exact : BinaryOp → Int → Int → Int → Prop
  | .add, a, b, n => n = a + b
  | .sub, a, b, n => n = a - b
  | .mul, a, b, n => n = a * b
  | .floorDiv, a, b, n => b ≠ 0 ∧ n = ⌊(a / b : ℚ)⌋
  | .mod, a, b, n => (∃ q, a = q * b + n) ∧ (0 ≤ n ∧ n < b ∨ b < n ∧ n ≤ 0)
  | .pow, a, b, n => 0 ≤ b ∧ n = a ^ b.toNat
  | .lshift, a, b, n => 0 ≤ b ∧ n = a * 2 ^ b.toNat
  | .rshift, a, b, n => 0 ≤ b ∧ n = ⌊(a / 2 ^ b.toNat : ℚ)⌋
  | .and, a, b, n => ∀ i, n.testBit i = (a.testBit i && b.testBit i)
  | .or, a, b, n => ∀ i, n.testBit i = (a.testBit i || b.testBit i)
  | .xor, a, b, n => ∀ i, n.testBit i = (a.testBit i ^^ b.testBit i)
  | .trueDiv, _, _, _ | .getItem, _, _, _ => False

/-- A division or a remainder by zero. -/
def DividesByZero (op : BinaryOp) (b : Int64) : Prop := (op = floorDiv ∨ op = mod) ∧ b = 0

/-- A shift by a negative count. -/
def ShiftsBack (op : BinaryOp) (b : Int64) : Prop := (op = lshift ∨ op = rshift) ∧ b < 0

/-- An operator whose result is no integer. -/
def LeavesIntegers (op : BinaryOp) (b : Int64) : Prop :=
  op = trueDiv ∨ op = getItem ∨ op = pow ∧ b < 0

/-- The result is a word, and counts as overflow all the same: an exponent that is no 32-bit
    number on a base whose powers stay small, and `-1` shifted by 63 places. -/
def Misses (op : BinaryOp) (a b : Int64) : Prop :=
  op = pow ∧ 2 ^ 32 ≤ b.toInt ∧ (a = 0 ∨ a = 1 ∨ a = -1) ∨ op = lshift ∧ a = -1 ∧ b = 63

end BinaryOp

namespace Integer

/-! ## Bits -/

/-- Integers with the same bits are equal. -/
theorem eq_of_testBit {m n : Int} (h : ∀ i, m.testBit i = n.testBit i) : m = n := by
  -- far enough up, a natural number has no bits and a negative one has all
  have apart (m n : Nat) : ∃ i, (Int.ofNat m).testBit i ≠ (Int.negSucc n).testBit i := by
    refine ⟨max m n, ?_⟩
    have small {k : Nat} (hk : k ≤ max m n) : k.testBit (max m n) = false :=
      Nat.testBit_lt_two_pow (Nat.lt_of_le_of_lt hk Nat.lt_two_pow_self)
    simp [Int.testBit, small (Nat.le_max_left m n), small (Nat.le_max_right m n)]
  cases m with
  | ofNat m =>
    cases n with
    | ofNat n => exact congrArg Int.ofNat (Nat.eq_of_testBit_eq h)
    | negSucc n =>
      obtain ⟨i, differ⟩ := apart m n
      exact absurd (h i) differ
  | negSucc m =>
    cases n with
    | ofNat n =>
      obtain ⟨i, differ⟩ := apart n m
      exact absurd (h i).symm differ
    | negSucc n =>
      refine congrArg Int.negSucc (Nat.eq_of_testBit_eq fun i => ?_)
      have flipped : (!m.testBit i) = !n.testBit i := h i
      simpa using flipped

/-- The bits of a word are its own ones, and above them its sign. -/
theorem testBit_toInt (a : Int64) (i : Nat) :
    a.toInt.testBit i = if i < 64 then a.toBitVec.getLsbD i else a.toBitVec.msb := by
  rw [← Int64.toInt_toBitVec]
  generalize a.toBitVec = x
  have small := x.isLt
  cases sign : x.msb with
  | false =>
    rw [BitVec.toInt_eq_toNat_of_msb sign]
    show x.toNat.testBit i = _
    rw [BitVec.testBit_toNat]
    split
    · rfl
    · rename_i above
      exact BitVec.getLsbD_of_ge x i (Nat.le_of_not_lt above)
  | true =>
    have value : x.toInt = Int.negSucc (2 ^ 64 - (x.toNat + 1)) := by
      rw [BitVec.toInt_eq_msb_cond, if_pos sign, Int.negSucc_eq]
      omega
    rw [value]
    show (!(2 ^ 64 - (x.toNat + 1)).testBit i) = _
    rw [Nat.testBit_two_pow_sub_succ small, BitVec.testBit_toNat]
    by_cases below : i < 64 <;> simp [below]

/-- The bits of a word that is made bit by bit from two others. -/
theorem testBit_bitwise {f : Bool → Bool → Bool} {a b c : Int64}
    (own : ∀ i, c.toBitVec.getLsbD i = f (a.toBitVec.getLsbD i) (b.toBitVec.getLsbD i))
    (sign : c.toBitVec.msb = f a.toBitVec.msb b.toBitVec.msb) (i : Nat) :
    c.toInt.testBit i = f (a.toInt.testBit i) (b.toInt.testBit i) := by
  simp only [testBit_toInt]
  split
  · exact own i
  · exact sign

/-! ## Quotients and remainders -/

/-- A remainder has the sign of the divisor and is smaller. -/
theorem fmod_bounds (a : Int) {b : Int} (hb : b ≠ 0) :
    0 ≤ a.fmod b ∧ a.fmod b < b ∨ b < a.fmod b ∧ a.fmod b ≤ 0 := by
  rcases Int.lt_or_gt_of_ne hb with negative | positive
  · right
    have low := Int.emod_nonneg a hb
    have high := Int.emod_lt_abs a hb
    rw [abs_of_neg negative] at high
    rw [Int.fmod_eq_emod]
    split
    · rename_i exact_
      have whole : a % b = 0 := Int.emod_eq_zero_of_dvd (exact_.resolve_left (by omega))
      omega
    · rename_i rest
      have : a % b ≠ 0 := fun zero => rest (.inr (Int.dvd_of_emod_eq_zero zero))
      omega
  · exact .inl ⟨Int.fmod_nonneg_of_pos a positive, Int.fmod_lt_of_pos a positive⟩

/-- A quotient with such a remainder is the one that is rounded down. -/
theorem eq_floor {a b q r : Int} (h : a = q * b + r)
    (hr : 0 ≤ r ∧ r < b ∨ b < r ∧ r ≤ 0) : q = ⌊(a / b : ℚ)⌋ := by
  symm
  rw [Int.floor_eq_iff]
  have value : (a : ℚ) = q * b + r := by exact_mod_cast h
  rcases hr with ⟨low, high⟩ | ⟨low, high⟩
  · have positive : (0 : ℚ) < b := by exact_mod_cast Int.lt_of_le_of_lt low high
    have low' : (0 : ℚ) ≤ r := by exact_mod_cast low
    have high' : (r : ℚ) < b := by exact_mod_cast high
    rw [le_div_iff₀ positive, div_lt_iff₀ positive]
    constructor <;> linarith
  · have negative : (b : ℚ) < 0 := by exact_mod_cast Int.lt_of_lt_of_le low high
    have low' : (b : ℚ) < r := by exact_mod_cast low
    have high' : (r : ℚ) ≤ 0 := by exact_mod_cast high
    rw [le_div_iff_of_neg negative, div_lt_iff_of_neg negative]
    constructor <;> linarith

theorem fdiv_add_fmod (a b : Int) : a = a.fdiv b * b + a.fmod b := by
  have := Int.mul_fdiv_add_fmod a b
  rw [Int.mul_comm] at this
  exact this.symm

/-! ## Shifts and powers -/

/-- To divide by a power of two and round down, all places but the last 63 can be left out. -/
theorem fdiv_two_pow (a : Int64) (n : Nat) :
    a.toInt.fdiv (2 ^ min n 63) = ⌊(a.toInt / 2 ^ n : ℚ)⌋ := by
  have floor (k : Nat) : ⌊(a.toInt / 2 ^ k : ℚ)⌋ = a.toInt / 2 ^ k := by
    have := Rat.floor_intCast_div_natCast a.toInt (2 ^ k)
    push_cast at this
    exact this
  have low := a.le_toInt
  have high := a.toInt_lt
  rw [floor, Int.fdiv_eq_ediv_of_nonneg _ (by positivity)]
  by_cases few : n ≤ 63
  · rw [Nat.min_eq_left few]
  · -- both quotients are 0 or -1, by the sign
    have more : (2 : Int) ^ 63 ≤ 2 ^ n := pow_le_pow_right₀ (by decide) (by omega)
    rw [Nat.min_eq_right (by omega)]
    rcases Int.lt_or_le a.toInt 0 with negative | positive
    · rw [Int.ediv_eq_neg_one_of_neg_of_le negative (by omega),
        Int.ediv_eq_neg_one_of_neg_of_le negative (by omega)]
    · rw [Int.ediv_eq_zero_of_lt positive (by omega), Int.ediv_eq_zero_of_lt positive (by omega)]

/-- Checked arithmetic answers what is a word. -/
def Fits (n : Int) : Prop := -2 ^ 63 ≤ n ∧ n < 2 ^ 63

theorem checked_of_fits {n : Int} (h : Fits n) : checked n = .ok (Int64.ofInt n) :=
  Sequence.checked_ok h.1 h.2

theorem checked_of_not_fits {n : Int} (h : ¬Fits n) : checked n = .error .overflow := by
  have outside : ¬(-(Int.pow 2 63) ≤ n ∧ n < Int.pow 2 63) := h
  rw [checked, ofInt?, if_neg outside]

theorem fits_toInt (a : Int64) : Fits a.toInt := ⟨a.le_toInt, a.toInt_lt⟩

theorem toInt_ofInt_of_fits {n : Int} (h : Fits n) : (Int64.ofInt n).toInt = n :=
  Int64.toInt_ofInt_of_le h.1 h.2

theorem checked_toInt (a : Int64) : checked a.toInt = .ok a := by
  rw [checked_of_fits (fits_toInt a), Int64.ofInt_toInt]

/-- The bases other than 0, 1 and -1 double at least with every power. -/
theorem two_pow_le_natAbs_pow {a : Int} (h₀ : a ≠ 0) (h₁ : a ≠ 1) (h₂ : a ≠ -1) (n : Nat) :
    2 ^ n ≤ (a ^ n).natAbs := by
  rw [Int.natAbs_pow]
  exact Nat.pow_le_pow_left (by omega) n

theorem not_fits_pow {a : Int} (h₀ : a ≠ 0) (h₁ : a ≠ 1) (h₂ : a ≠ -1) {n : Nat} (h : 64 ≤ n) :
    ¬Fits (a ^ n) := by
  rintro ⟨low, high⟩
  have large := two_pow_le_natAbs_pow h₀ h₁ h₂ n
  have more : 2 ^ 64 ≤ 2 ^ n := Nat.pow_le_pow_right (by decide) h
  omega

theorem fits_flat_pow {a : Int64} (h : a = 0 ∨ a = 1 ∨ a = -1) (n : Nat) : Fits (a.toInt ^ n) := by
  have bound : (a.toInt ^ n).natAbs ≤ 1 := by
    rw [Int.natAbs_pow]
    refine pow_le_one₀ (Nat.zero_le _) ?_
    rcases h with rfl | rfl | rfl <;> decide
  exact ⟨by omega, by omega⟩

/-- A power with an exponent of 32 bits is checked. -/
theorem power_eq (a : Int64) {n : Nat} (h : n < 2 ^ 32) : power a n = checked (a.toInt ^ n) := by
  have small : ¬UInt32.size ≤ n := Nat.not_le.mpr h
  rw [power, if_neg small]
  split
  · rename_i zero
    subst zero
    rcases Nat.eq_zero_or_pos n with rfl | positive
    · rfl
    · rw [if_neg (by omega)]
      show Except.ok 0 = checked (0 ^ n)
      rw [zero_pow (by omega)]
      rfl
  · split
    · rename_i one
      subst one
      show Except.ok 1 = checked (1 ^ n)
      rw [one_pow]
      rfl
    · split
      · rename_i minus
        subst minus
        show _ = checked ((-1) ^ n)
        split
        · rename_i even
          rw [Even.neg_one_pow (Nat.even_iff.mpr even)]
          rfl
        · rename_i odd
          rw [Odd.neg_one_pow (Nat.odd_iff.mpr (by omega))]
          rfl
      · rename_i h₀ h₁ h₂
        have ne {c : Int64} (h : ¬a = c) : a.toInt ≠ c.toInt := fun eq => h (Int64.toInt_inj.mp eq)
        split
        · rename_i long
          exact (checked_of_not_fits (not_fits_pow (ne h₀) (ne h₁) (ne h₂) (by omega))).symm
        · rfl

theorem not_fits_shift {a : Int} {n : Nat} (nonzero : a ≠ 0) (long : 63 ≤ n)
    (h : ¬(a = -1 ∧ n = 63)) : ¬Fits (a * 2 ^ n) := by
  rintro ⟨low, high⟩
  have more : (2 : Int) ^ 63 ≤ 2 ^ n := pow_le_pow_right₀ (by decide) long
  rcases Int.lt_or_gt_of_ne nonzero with negative | positive
  · by_cases one : a = -1
    · have : (2 : Int) ^ 64 ≤ 2 ^ n := pow_le_pow_right₀ (by decide) (by omega)
      subst one
      omega
    · have : a * 2 ^ n ≤ -2 * 2 ^ n := Int.mul_le_mul_of_nonneg_right (by omega) (by omega)
      omega
  · have : 1 * 2 ^ n ≤ a * 2 ^ n := Int.mul_le_mul_of_nonneg_right positive (by omega)
    omega

/-- A shift to the left is checked, but for `-1` by 63 places. -/
theorem shiftLeft_eq {a : Int64} {n : Nat} (h : ¬(a = -1 ∧ n = 63)) :
    shiftLeft a n = checked (a.toInt * 2 ^ n) := by
  rw [shiftLeft]
  split
  · rename_i zero
    subst zero
    show Except.ok 0 = checked (0 * 2 ^ n)
    rw [Int.zero_mul]
    rfl
  · rename_i nonzero
    split
    · rename_i long
      have nonzero' : a.toInt ≠ 0 := fun eq => nonzero (Int64.toInt_inj.mp eq)
      refine (checked_of_not_fits (not_fits_shift nonzero' long fun hit => h ⟨?_, hit.2⟩)).symm
      exact Int64.toInt_inj.mp hit.1
    · rfl

end Integer

/-! ## The ways in which an operator answers -/

namespace BinaryOp.Exact

open Integer

variable {op : BinaryOp} {a b m n : Int}

/-- There is one exact result at most. -/
theorem unique (hm : op.Exact a b m) (hn : op.Exact a b n) : m = n := by
  cases op with
  | add | sub | mul => exact hm.trans hn.symm
  | floorDiv | pow | lshift | rshift => exact hm.2.trans hn.2.symm
  | mod =>
    obtain ⟨⟨q, hq⟩, small⟩ := hm
    obtain ⟨⟨q', hq'⟩, small'⟩ := hn
    have same : q = q' := (eq_floor hq small).trans (eq_floor hq' small').symm
    subst same
    omega
  | and | or | xor => exact eq_of_testBit fun i => (hm i).trans (hn i).symm
  | trueDiv | getItem => exact hm.elim

/-- Operands that have an exact result are none of those that have none. -/
theorem defined {a b : Int64} (h : op.Exact a.toInt b.toInt n) :
    ¬op.DividesByZero b ∧ ¬op.ShiftsBack b ∧ ¬op.LeavesIntegers b := by
  have nonneg {b : Int64} (h : 0 ≤ b.toInt) : ¬b < 0 := fun lt =>
    absurd (Int64.lt_iff_toInt_lt.mp lt) (Int.not_lt.mpr h)
  refine ⟨?_, ?_, ?_⟩
  · rintro ⟨rfl | rfl, rfl⟩
    · exact h.1 rfl
    · have none : (0 : Int64).toInt = 0 := rfl
      have := h.2
      omega
  · rintro ⟨rfl | rfl, negative⟩ <;> exact nonneg h.1 negative
  · rintro (rfl | rfl | ⟨rfl, negative⟩)
    · exact h
    · exact h
    · exact nonneg h.1 negative

end BinaryOp.Exact

theorem BinaryOp.DividesByZero.apart {op : BinaryOp} {b : Int64} (h : op.DividesByZero b) :
    ¬op.ShiftsBack b ∧ ¬op.LeavesIntegers b := by
  rcases h with ⟨rfl | rfl, -⟩
  · simp [BinaryOp.ShiftsBack, BinaryOp.LeavesIntegers]
  · simp [BinaryOp.ShiftsBack, BinaryOp.LeavesIntegers]

theorem BinaryOp.ShiftsBack.apart {op : BinaryOp} {b : Int64} (h : op.ShiftsBack b) :
    ¬op.LeavesIntegers b := by
  rcases h with ⟨rfl | rfl, -⟩
  · simp [BinaryOp.LeavesIntegers]
  · simp [BinaryOp.LeavesIntegers]

/-- What is missed is a word. -/
theorem BinaryOp.Misses.value {op : BinaryOp} {a b : Int64} (h : op.Misses a b) :
    ∃ n, op.Exact a.toInt b.toInt n ∧ Integer.Fits n := by
  rcases h with ⟨rfl, long, flat⟩ | ⟨rfl, rfl, rfl⟩
  · exact ⟨_, ⟨by omega, rfl⟩, Integer.fits_flat_pow flat _⟩
  · exact ⟨_, ⟨by decide, rfl⟩, by constructor <;> decide⟩

theorem BinaryOp.Misses.defined {op : BinaryOp} {a b : Int64} (h : op.Misses a b) :
    ¬op.DividesByZero b ∧ ¬op.ShiftsBack b ∧ ¬op.LeavesIntegers b := by
  obtain ⟨n, value, -⟩ := h.value
  exact value.defined

namespace Integer

open BinaryOp

variable {op : BinaryOp} {a b : Int64}

/-- The ways in which an operator can answer on two words. -/
inductive Outcome (op : BinaryOp) (a b : Int64) : Except ArithError (Option Int64) → Prop
  /-- the exact result, if it is a word -/
  | exact {n : Int} (value : op.Exact a.toInt b.toInt n) (hit : ¬op.Misses a b) :
      Outcome op a b (some <$> checked n)
  /-- overflow although the exact result is a word -/
  | missed (miss : op.Misses a b) : Outcome op a b (.error .overflow)
  /-- nothing can be divided by zero -/
  | zeroDivision (h : op.DividesByZero b) : Outcome op a b (.error .zeroDivision)
  /-- the count of places is negative -/
  | negativeShift (h : op.ShiftsBack b) : Outcome op a b (.error .negativeShift)
  /-- the result is no integer -/
  | leaves (h : op.LeavesIntegers b) : Outcome op a b (.ok none)

/-- A word is its own exact result. -/
theorem Outcome.of_word {c : Int64} (value : op.Exact a.toInt b.toInt c.toInt)
    (hit : ¬op.Misses a b) : Outcome op a b (.ok (some c)) := by
  have answer := Outcome.exact value hit
  rw [checked_toInt] at answer
  exact answer

theorem toNat_toInt (h : ¬b < 0) : ((b.toInt.toNat : Nat) : Int) = b.toInt := by
  have := mt Int64.lt_iff_toInt_lt.mpr h
  have zero : (0 : Int64).toInt = 0 := rfl
  omega

/-! ### Case by case -/

theorem power_outcome (h : ¬b < 0) : Outcome pow a b (some <$> power a b.toInt.toNat) := by
  have count := toNat_toInt h
  have value : pow.Exact a.toInt b.toInt (a.toInt ^ b.toInt.toNat) := ⟨by omega, rfl⟩
  by_cases short : b.toInt < 2 ^ 32
  · rw [power_eq a (by omega)]
    refine .exact value ?_
    rintro (⟨-, long, -⟩ | ⟨isShift, -⟩)
    · omega
    · cases isShift
  · have overflow : power a b.toInt.toNat = .error .overflow := by
      have long : UInt32.size ≤ b.toInt.toNat := show 2 ^ 32 ≤ b.toInt.toNat by omega
      rw [power, if_pos long]
    rw [overflow]
    by_cases flat : a = 0 ∨ a = 1 ∨ a = -1
    · exact .missed (.inl ⟨rfl, by omega, flat⟩)
    · have ne {c : Int64} (h : ¬a = c) : a.toInt ≠ c.toInt := fun eq => h (Int64.toInt_inj.mp eq)
      have large : ¬Fits (a.toInt ^ b.toInt.toNat) :=
        not_fits_pow (ne fun h => flat (.inl h)) (ne fun h => flat (.inr (.inl h)))
          (ne fun h => flat (.inr (.inr h))) (by omega)
      have answer := Outcome.exact value fun
        | .inl miss => flat miss.2.2
        | .inr miss => nomatch miss.1
      rw [checked_of_not_fits large] at answer
      exact answer

theorem shiftLeft_outcome (h : ¬b < 0) :
    Outcome lshift a b (some <$> shiftLeft a b.toInt.toNat) := by
  have count := toNat_toInt h
  have value : lshift.Exact a.toInt b.toInt (a.toInt * 2 ^ b.toInt.toNat) := ⟨by omega, rfl⟩
  by_cases miss : a = -1 ∧ b = 63
  · obtain ⟨rfl, rfl⟩ := miss
    exact .missed (.inr ⟨rfl, rfl, rfl⟩)
  · rw [shiftLeft_eq fun hit => miss ⟨hit.1, Int64.toInt_inj.mp (by rw [← count, hit.2]; rfl)⟩]
    exact .exact value fun
      | .inl isPow => nomatch isPow.1
      | .inr hit => miss hit.2

theorem shiftRight_outcome (h : ¬b < 0) :
    Outcome rshift a b (some <$> checked (a.toInt.fdiv (2 ^ min b.toInt.toNat 63))) := by
  have count := toNat_toInt h
  rw [fdiv_two_pow]
  exact .exact ⟨by omega, rfl⟩ fun
    | .inl isPow => nomatch isPow.1
    | .inr isShift => nomatch isShift.1

/-- **How an operator answers.** -/
theorem binary_outcome (op : BinaryOp) (a b : Int64) : Outcome op a b (binary op a b) := by
  have hit {op : BinaryOp} (h₁ : op ≠ pow) (h₂ : op ≠ lshift) : ¬op.Misses a b := fun
    | .inl isPow => h₁ isPow.1
    | .inr isShift => h₂ isShift.1
  have nonzero (h : ¬b = 0) : b.toInt ≠ 0 := fun eq => h (Int64.toInt_inj.mp eq)
  cases op with
  | add | sub | mul => exact .exact rfl (hit nofun nofun)
  | floorDiv =>
    rw [binary]
    split
    · rename_i zero
      exact .zeroDivision ⟨.inl rfl, zero⟩
    · rename_i b_ne
      have quotient := eq_floor (fdiv_add_fmod a.toInt b.toInt) (fmod_bounds _ (nonzero b_ne))
      exact .exact ⟨nonzero b_ne, quotient⟩ (hit nofun nofun)
  | mod =>
    rw [binary]
    split
    · rename_i zero
      exact .zeroDivision ⟨.inr rfl, zero⟩
    · rename_i b_ne
      exact .exact ⟨⟨_, fdiv_add_fmod _ _⟩, fmod_bounds _ (nonzero b_ne)⟩ (hit nofun nofun)
  | pow =>
    rw [binary]
    split
    · rename_i negative
      exact .leaves (.inr (.inr ⟨rfl, negative⟩))
    · rename_i count
      exact power_outcome count
  | lshift =>
    rw [binary]
    split
    · rename_i negative
      exact .negativeShift ⟨.inl rfl, negative⟩
    · rename_i count
      exact shiftLeft_outcome count
  | rshift =>
    rw [binary]
    split
    · rename_i negative
      exact .negativeShift ⟨.inr rfl, negative⟩
    · rename_i count
      exact shiftRight_outcome count
  | and =>
    refine .of_word (testBit_bitwise (fun i => ?_) ?_) (hit nofun nofun)
    · simp
    · simp
  | or =>
    refine .of_word (testBit_bitwise (fun i => ?_) ?_) (hit nofun nofun)
    · simp
    · simp
  | xor =>
    refine .of_word (testBit_bitwise (fun i => ?_) ?_) (hit nofun nofun)
    · simp
    · simp
  | trueDiv => exact .leaves (.inl rfl)
  | getItem => exact .leaves (.inr (.inl rfl))

/-! ### The other way round -/

variable {x : Except ArithError (Option Int64)}

theorem checked_eq_ok {n : Int} {r : Int64} : checked n = .ok r ↔ n = r.toInt := by
  constructor
  · intro h
    by_cases fits : Fits n
    · rw [checked_of_fits fits] at h
      cases h
      exact (toInt_ofInt_of_fits fits).symm
    · cases (checked_of_not_fits fits).symm.trans h
  · rintro rfl
    exact checked_toInt r

theorem checked_eq_error {n : Int} {e : ArithError} :
    checked n = .error e ↔ ¬Fits n ∧ e = .overflow := by
  constructor
  · intro h
    by_cases fits : Fits n
    · cases (checked_of_fits fits).symm.trans h
    · cases (checked_of_not_fits fits).symm.trans h
      exact ⟨fits, rfl⟩
  · rintro ⟨fits, rfl⟩
    exact checked_of_not_fits fits

theorem some_map_eq_ok {x : Except ArithError Int64} {r : Option Int64} :
    some <$> x = .ok r ↔ ∃ a, x = .ok a ∧ r = some a := by
  cases x with
  | ok a =>
    constructor
    · rintro ⟨⟩
      exact ⟨a, rfl, rfl⟩
    · rintro ⟨_, ⟨⟩, rfl⟩
      rfl
  | error e =>
    constructor
    · rintro ⟨⟩
    · rintro ⟨_, ⟨⟩, _⟩

theorem some_map_eq_error {x : Except ArithError Int64} {e : ArithError} :
    some <$> x = (.error e : Except ArithError (Option Int64)) ↔ x = .error e := by
  cases x with
  | ok a => constructor <;> rintro ⟨⟩
  | error e' =>
    constructor
    · rintro ⟨⟩
      rfl
    · rintro ⟨⟩
      rfl

namespace Outcome

/-- An operator answers its exact result, unless that is missed. -/
theorem answers_iff (h : Outcome op a b x) (r : Int64) :
    x = .ok (some r) ↔ op.Exact a.toInt b.toInt r.toInt ∧ ¬op.Misses a b := by
  constructor
  · intro answer
    cases h with
    | exact value hit =>
      obtain ⟨_, known, ⟨⟩⟩ := some_map_eq_ok.mp answer
      cases checked_eq_ok.mp known
      exact ⟨value, hit⟩
    | missed | zeroDivision | negativeShift | leaves => cases answer
  · rintro ⟨value, hit⟩
    cases h with
    | exact known _ => exact some_map_eq_ok.mpr ⟨r, checked_eq_ok.mpr (known.unique value), rfl⟩
    | missed miss => exact absurd miss hit
    | zeroDivision h => exact absurd h value.defined.1
    | negativeShift h => exact absurd h value.defined.2.1
    | leaves h => exact absurd h value.defined.2.2

theorem overflow_iff (h : Outcome op a b x) :
    x = .error .overflow ↔
      (∃ n, op.Exact a.toInt b.toInt n ∧ ¬Fits n) ∨ op.Misses a b := by
  constructor
  · intro failed
    cases h with
    | exact value hit =>
      exact .inl ⟨_, value, (checked_eq_error.mp (some_map_eq_error.mp failed)).1⟩
    | missed miss => exact .inr miss
    | zeroDivision | negativeShift | leaves => cases failed
  · intro large
    -- either way there is an exact result
    have ⟨n, value⟩ : ∃ n, op.Exact a.toInt b.toInt n := by
      rcases large with ⟨n, value, -⟩ | miss
      · exact ⟨n, value⟩
      · obtain ⟨n, value, -⟩ := miss.value
        exact ⟨n, value⟩
    cases h with
    | exact known hit =>
      obtain ⟨n, value, outside⟩ := large.resolve_right hit
      rw [known.unique value]
      exact some_map_eq_error.mpr (checked_eq_error.mpr ⟨outside, rfl⟩)
    | missed => rfl
    | zeroDivision h => exact absurd h value.defined.1
    | negativeShift h => exact absurd h value.defined.2.1
    | leaves h => exact absurd h value.defined.2.2

theorem zeroDivision_iff (h : Outcome op a b x) :
    x = .error .zeroDivision ↔ op.DividesByZero b := by
  constructor
  · intro failed
    cases h with
    | exact value hit => cases (checked_eq_error.mp (some_map_eq_error.mp failed)).2
    | zeroDivision h => exact h
    | missed | negativeShift | leaves => cases failed
  · intro zero
    cases h with
    | exact value hit => exact absurd zero value.defined.1
    | missed miss => exact absurd zero miss.defined.1
    | zeroDivision => rfl
    | negativeShift h => exact absurd h zero.apart.1
    | leaves h => exact absurd h zero.apart.2

theorem negativeShift_iff (h : Outcome op a b x) :
    x = .error .negativeShift ↔ op.ShiftsBack b := by
  constructor
  · intro failed
    cases h with
    | exact value hit => cases (checked_eq_error.mp (some_map_eq_error.mp failed)).2
    | negativeShift h => exact h
    | missed | zeroDivision | leaves => cases failed
  · intro back
    cases h with
    | exact value hit => exact absurd back value.defined.2.1
    | missed miss => exact absurd back miss.defined.2.1
    | negativeShift => rfl
    | zeroDivision h => exact absurd back h.apart.1
    | leaves h => exact absurd h back.apart

theorem leaves_iff (h : Outcome op a b x) : x = .ok none ↔ op.LeavesIntegers b := by
  constructor
  · intro answer
    cases h with
    | exact value hit =>
      obtain ⟨_, -, ⟨⟩⟩ := some_map_eq_ok.mp answer
    | leaves h => exact h
    | missed | zeroDivision | negativeShift => cases answer
  · intro leaves
    cases h with
    | exact value hit => exact absurd leaves value.defined.2.2
    | missed miss => exact absurd leaves miss.defined.2.2
    | leaves => rfl
    | zeroDivision h => exact absurd leaves h.apart.2
    | negativeShift h => exact absurd leaves h.apart

end Outcome

end Integer

end TieredMachine
