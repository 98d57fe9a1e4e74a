/-
  The positions of a slice.

  A bound that is negative counts from the end of the sequence; then it is brought to the
  positions that there are, or to the one next to them that the step runs towards.  The
  slice selects the progression from the first bound on, as long as it stays strictly before
  the last one.  All this can be computed on 64-bit words, for every length that is one.

  * `Sequence.first`, `Sequence.last`, `Sequence.Before`: the bounds, and what is before one;
  * `Sequence.Span.of_selects`: the positions that are selected;
  * `Sequence.Span.positions_nodup`, `Sequence.Span.lt_of_mem`: distinct and in range;
  * `Sequence.spanWords_ok`: no word overflows.
-/
import Mathlib.Algebra.Group.Int.Defs
import Mathlib.Algebra.Group.Nat.Defs
import Mathlib.Data.List.Nodup
import TieredMachine.Integer.Arithmetic
import TieredMachine.Sequence.Slice

namespace TieredMachine

namespace Sequence

/-! ## Bounds -/

/-- The least that a bound can be. -/
def lowest (step : Int64) : Int := if step < 0 then -1 else 0

/-- The greatest that a bound can be. -/
def highest (step : Int64) (len : Nat) : Int := if step < 0 then len - 1 else len

/-- A bound of a slice over `len` items: a negative one is shifted by the length, and then it
    is brought between the least and the greatest that it can be. -/
def resolved (step : Int64) (len : Nat) (default : Int) : Option Int64 → Int
  | none => default
  | some i =>
    max (lowest step) (min (highest step len) (if i < 0 then i.toInt + len else i.toInt))

/-- Where a slice starts. -/
def first (start : Option Int64) (step : Int64) (len : Nat) : Int :=
  resolved step len (if step < 0 then highest step len else lowest step) start

/-- Where a slice stops. -/
def last (stop : Option Int64) (step : Int64) (len : Nat) : Int :=
  resolved step len (if step < 0 then lowest step else highest step len) stop

/-- Strictly before a bound, in the direction of a step. -/
def Before (step : Int64) (p bound : Int) : Prop := if step < 0 then bound < p else p < bound

variable {start stop : Option Int64} {step : Int64} {len : Nat}

theorem neg_iff {i : Int64} : i < 0 ↔ i.toInt < 0 := Int64.lt_iff_toInt_lt

theorem toInt_ne_zero (h : step ≠ 0) : step.toInt ≠ 0 := fun zero => h (Int64.toInt_inj.mp zero)

theorem toInt_pos (h : step ≠ 0) (up : ¬step < 0) : 0 < step.toInt := by
  have := toInt_ne_zero h
  have := mt neg_iff.mpr up
  omega

theorem resolved_bounds {default : Int} (bound : Option Int64)
    (hd : lowest step ≤ default ∧ default ≤ highest step len) :
    lowest step ≤ resolved step len default bound ∧
      resolved step len default bound ≤ highest step len := by
  have order : lowest step ≤ highest step len := Int.le_trans hd.1 hd.2
  cases bound with
  | none => exact hd
  | some i => exact ⟨Int.le_max_left .., Int.max_le.mpr ⟨order, Int.min_le_left ..⟩⟩

theorem lowest_le_highest (step : Int64) (len : Nat) : lowest step ≤ highest step len := by
  unfold lowest highest
  split <;> omega

theorem first_bounds (start : Option Int64) (step : Int64) (len : Nat) :
    lowest step ≤ first start step len ∧ first start step len ≤ highest step len :=
  resolved_bounds start (by
    have := lowest_le_highest step len
    split <;> omega)

theorem last_bounds (stop : Option Int64) (step : Int64) (len : Nat) :
    lowest step ≤ last stop step len ∧ last stop step len ≤ highest step len :=
  resolved_bounds stop (by
    have := lowest_le_highest step len
    split <;> omega)

/-- Clamping to one side is enough: a bound that was shifted is below the length, and one that
    was not is no less than zero. -/
theorem clamp_eq (default : Int) (bound : Option Int64) :
    clamp len (lowest step) (highest step len) default bound =
      resolved step len default bound := by
  cases bound with
  | none => rfl
  | some i =>
    have order := lowest_le_highest step len
    have top : (len : Int) - 1 ≤ highest step len ∧ lowest step ≤ 0 := by
      unfold highest lowest
      split <;> omega
    by_cases negative : i < 0
    · have below : i.toInt < 0 := neg_iff.mp negative
      simp only [clamp, resolved, if_pos negative]
      omega
    · have notBelow : ¬i.toInt < 0 := mt neg_iff.mpr negative
      simp only [clamp, resolved, if_neg negative]
      omega

/-! ## Positions -/

/-- How many positions there are from one bound to another. -/
def reach (step : Int64) (first last : Int) : Int :=
  if step < 0 then (if last < first then (first - last - 1) / -step.toInt + 1 else 0)
  else if first < last then (last - first - 1) / step.toInt + 1
  else 0

theorem span_eq (start stop : Option Int64) (step : Int64) (len : Nat) :
    Span.of start stop step len = ⟨first start step len, step.toInt,
      (reach step (first start step len) (last stop step len)).toNat⟩ := by
  have first_eq : clamp len (if step < 0 then -1 else 0) (if step < 0 then len - 1 else len)
      (if step < 0 then (if step < 0 then len - 1 else len) else (if step < 0 then -1 else 0))
      start = first start step len := clamp_eq _ start
  have last_eq : clamp len (if step < 0 then -1 else 0) (if step < 0 then len - 1 else len)
      (if step < 0 then (if step < 0 then -1 else 0) else (if step < 0 then len - 1 else len))
      stop = last stop step len := clamp_eq _ stop
  unfold Span.of reach
  simp only [first_eq, last_eq]

/-- As many positions as stay before the bound. -/
theorem lt_reach_iff (h : step ≠ 0) (a b : Int) (k : Nat) :
    (k : Int) < reach step a b ↔ Before step (a + k * step.toInt) b := by
  unfold reach Before
  by_cases down : step < 0
  · have negative := neg_iff.mp down
    rw [if_pos down, if_pos down]
    have stride : (k : Int) ≤ (a - b - 1) / -step.toInt ↔ k * -step.toInt ≤ a - b - 1 :=
      Int.le_ediv_iff_mul_le (by omega)
    rw [Int.mul_neg] at stride
    have away : k * step.toInt ≤ 0 :=
      Int.mul_nonpos_of_nonneg_of_nonpos (Int.natCast_nonneg k) (Int.le_of_lt negative)
    split <;> omega
  · have positive := toInt_pos h down
    rw [if_neg down, if_neg down]
    have stride : (k : Int) ≤ (b - a - 1) / step.toInt ↔ k * step.toInt ≤ b - a - 1 :=
      Int.le_ediv_iff_mul_le positive
    have away : 0 ≤ k * step.toInt :=
      Int.mul_nonneg (Int.natCast_nonneg k) (Int.le_of_lt positive)
    split <;> omega

/-- A position before the last bound is one of the sequence. -/
theorem position_bounds (h : step ≠ 0) {k : Nat}
    (hk : Before step (first start step len + k * step.toInt) (last stop step len)) :
    0 ≤ first start step len + k * step.toInt ∧ first start step len + k * step.toInt < len := by
  obtain ⟨low, high⟩ := first_bounds start step len
  obtain ⟨low', high'⟩ := last_bounds stop step len
  unfold lowest at low low'
  unfold highest at high high'
  unfold Before at hk
  by_cases down : step < 0
  · rw [if_pos down] at hk low high low' high'
    have away : k * step.toInt ≤ 0 :=
      Int.mul_nonpos_of_nonneg_of_nonpos (Int.natCast_nonneg k) (Int.le_of_lt (neg_iff.mp down))
    omega
  · rw [if_neg down] at hk low high low' high'
    have away : 0 ≤ k * step.toInt :=
      Int.mul_nonneg (Int.natCast_nonneg k) (Int.le_of_lt (toInt_pos h down))
    omega

namespace Span

theorem positions_get (s : Span) (k : Nat) : s.positions[k]? =
    if k < s.count then some (s.start + k * s.step).toNat else none := by
  unfold positions
  rw [List.getElem?_map]
  split
  · rename_i hk
    rw [List.getElem?_range hk]
    rfl
  · rename_i hk
    rw [List.getElem?_eq_none (by simpa using hk)]
    rfl

theorem positions_length (s : Span) : s.positions.length = s.count := by
  unfold positions
  rw [List.length_map, List.length_range]

theorem step_eq_one_iff : (Span.of start stop step len).step = 1 ↔ step = 1 := by
  rw [span_eq]
  exact Int64.toInt_inj (y := 1)

theorem lt_count_iff (h : step ≠ 0) (k : Nat) : k < (Span.of start stop step len).count ↔
    Before step (first start step len + k * step.toInt) (last stop step len) := by
  rw [← lt_reach_iff h, span_eq]
  show k < Int.toNat _ ↔ _
  omega

/-- The slice selects the progression from the first bound on, as long as it stays before the
    last one. -/
theorem of_selects (h : step ≠ 0) (k p : Nat) :
    (Span.of start stop step len).positions[k]? = some p ↔
      (p : Int) = first start step len + k * step.toInt ∧
        Before step (first start step len + k * step.toInt) (last stop step len) := by
  rw [positions_get, ← lt_count_iff h]
  have same : (Span.of start stop step len).start + k * (Span.of start stop step len).step =
      first start step len + k * step.toInt := by rw [span_eq]
  rw [same]
  split
  · rename_i hk
    have inside := (position_bounds h ((lt_count_iff h k).mp hk)).1
    rw [Option.some.injEq, and_iff_left hk]
    omega
  · rename_i hk
    exact ⟨nofun, fun both => absurd both.2 hk⟩

theorem lt_of_mem (h : step ≠ 0) {p : Nat} (hp : p ∈ (Span.of start stop step len).positions) :
    p < len := by
  obtain ⟨k, hk⟩ := List.mem_iff_getElem?.mp hp
  obtain ⟨value, before⟩ := (of_selects h k p).mp hk
  have inside := (position_bounds h before).2
  omega

theorem positions_nodup (h : step ≠ 0) : (Span.of start stop step len).positions.Nodup := by
  rw [List.nodup_iff_getElem?_ne_getElem?]
  intro i j hij hj same
  rw [List.getElem?_eq_getElem hj] at same
  obtain ⟨value, -⟩ := (of_selects h i _).mp same
  obtain ⟨value', -⟩ := (of_selects h j _).mp (List.getElem?_eq_getElem hj)
  have products : (i : Int) * step.toInt = j * step.toInt := by omega
  have := Int.eq_of_mul_eq_mul_right (toInt_ne_zero h) products
  omega

end Span

/-! ## Words -/

open Integer

/-- A bound of a slice as a word, between two others.  A sum that leaves the range stays at
    its end. -/
def wordBound (len low high default : Int64) : Option Int64 → Int64
  | none => default
  | some i => if i < 0 then max (Int64.ofIntClamp (i.toInt + len.toInt)) low else min i high

/-- How many strides there are from a word to one above it, the first one counted. -/
def wordSteps (low high stride : Int64) : Except ArithError Int64 := do
  let distance ← checked (high.toInt - low.toInt)
  let between ← checked (distance.toInt - 1)
  let further ← checked (between.toInt.tdiv stride.toInt)
  checked (further.toInt + 1)

/-- How many positions there are from one word down or up to another one. -/
def wordReach (start stop step : Int64) : Except ArithError Int64 := do
  if step < 0 ∧ stop < start then wordSteps stop start (← checked (-step.toInt))
  else if 0 < step ∧ start < stop then wordSteps start stop step
  else return 0

/-- The step that words are computed with.  The least word, which has no negation, is brought to
    the one above it. -/
def wordStep (step : Int64) : Int64 := max step (-Int64.maxValue)

/-- The greatest that a bound can be, as a word. -/
def wordHigh (step len : Int64) : Except ArithError Int64 :=
  if step < 0 then checked (len.toInt - 1) else return len

/-- The first position, the step and the number of positions of a slice, computed on words.
    Every difference, quotient and negation fails that leaves the range of words. -/
def spanWords (start stop : Option Int64) (step : Int64) (len : Nat) :
    Except ArithError (Int64 × Int64 × Int64) := do
  let len ← checked len
  let step := wordStep step
  let low : Int64 := if step < 0 then -1 else 0
  let high ← wordHigh step len
  let first := wordBound len low high (if step < 0 then high else low) start
  let last := wordBound len low high (if step < 0 then low else high) stop
  let count ← wordReach first last step
  return (first, step, count)

/-- A position of a slice, computed on words that may not overflow. -/
def positionWord (first step k : Int64) : Except ArithError Int64 := do
  let offset ← checked (k.toInt * step.toInt)
  checked (first.toInt + offset.toInt)

theorem checked_ok {n : Int} (low : -2 ^ 63 ≤ n) (high : n < 2 ^ 63) :
    checked n = .ok (Int64.ofInt n) := by
  have inside : -(Int.pow 2 63) ≤ n ∧ n < Int.pow 2 63 := ⟨low, high⟩
  rw [checked, ofInt?, if_pos inside]

theorem checked_bind {α : Type} {n : Int} (low : -2 ^ 63 ≤ n) (high : n < 2 ^ 63)
    (f : Int64 → Except ArithError α) : (checked n >>= f) = f (Int64.ofInt n) := by
  rw [checked_ok low high]
  rfl

theorem toInt_max (a b : Int64) : (max a b).toInt = max a.toInt b.toInt := by
  show (if a ≤ b then b else a).toInt = _
  split
  · rename_i le
    have := Int64.le_iff_toInt_le.mp le
    omega
  · rename_i gt
    have := mt Int64.le_iff_toInt_le.mpr gt
    omega

theorem toInt_min (a b : Int64) : (min a b).toInt = min a.toInt b.toInt := by
  show (if a ≤ b then a else b).toInt = _
  split
  · rename_i le
    have := Int64.le_iff_toInt_le.mp le
    omega
  · rename_i gt
    have := mt Int64.le_iff_toInt_le.mpr gt
    omega

/-- A negative word and a length have a sum that is a word. -/
theorem wordBound_toInt {n low high default : Int64} (hn : n.toInt = len) (bound : Option Int64) :
    (wordBound n low high default bound).toInt =
      clamp len low.toInt high.toInt default.toInt bound := by
  cases bound with
  | none => rfl
  | some i =>
    by_cases negative : i < 0
    · have below : i.toInt < 0 := neg_iff.mp negative
      have least := i.le_toInt
      have most := n.toInt_lt
      simp only [wordBound, clamp, if_pos negative]
      rw [toInt_max, Int64.toInt_ofIntClamp, hn]
      · rw [Int64.toInt_minValue]
        omega
      · rw [Int64.toInt_maxValue]
        omega
    · simp only [wordBound, clamp, if_neg negative]
      exact toInt_min i high

theorem reach_nonneg (h : step ≠ 0) (a b : Int) : 0 ≤ reach step a b := by
  unfold reach
  by_cases down : step < 0
  · rw [if_pos down]
    have negative := neg_iff.mp down
    split
    · have : 0 ≤ (a - b - 1) / -step.toInt := Int.ediv_nonneg (by omega) (by omega)
      omega
    · exact Int.le_refl 0
  · rw [if_neg down]
    have positive := toInt_pos h down
    split
    · have : 0 ≤ (b - a - 1) / step.toInt := Int.ediv_nonneg (by omega) (by omega)
      omega
    · exact Int.le_refl 0

/-- There are no more positions than the bounds are apart. -/
theorem reach_le (step : Int64) (a b : Int) : reach step a b ≤ max 0 (max (a - b) (b - a)) := by
  unfold reach
  split
  · split
    · have : (a - b - 1) / -step.toInt ≤ a - b - 1 := Int.ediv_le_self _ (by omega)
      omega
    · omega
  · split
    · have : (b - a - 1) / step.toInt ≤ b - a - 1 := Int.ediv_le_self _ (by omega)
      omega
    · omega

/-- Words whose distance is a word are as far apart on words. -/
theorem wordSteps_ok {low high stride : Int64} (apart : low.toInt < high.toInt)
    (near : high.toInt - low.toInt < 2 ^ 63) (positive : 0 < stride.toInt) :
    wordSteps low high stride =
      .ok (Int64.ofInt ((high.toInt - low.toInt - 1) / stride.toInt + 1)) := by
  have some : 0 ≤ (high.toInt - low.toInt - 1) / stride.toInt :=
    Int.ediv_nonneg (by omega) (by omega)
  have few : (high.toInt - low.toInt - 1) / stride.toInt ≤ high.toInt - low.toInt - 1 :=
    Int.ediv_le_self _ (by omega)
  unfold wordSteps
  rw [checked_bind (by omega) (by omega), Int64.toInt_ofInt_of_le (by omega) (by omega),
    checked_bind (by omega) (by omega), Int64.toInt_ofInt_of_le (by omega) (by omega),
    Int.tdiv_eq_ediv_of_nonneg (by omega), checked_bind (by omega) (by omega),
    Int64.toInt_ofInt_of_le (by omega) (by omega), checked_ok (by omega) (by omega)]

/-- The number of positions between bounds whose distance is a word. -/
theorem wordReach_ok {a b : Int64} (h : step ≠ 0) (least : -2 ^ 63 < step.toInt)
    (near : a.toInt - b.toInt < 2 ^ 63 ∧ b.toInt - a.toInt < 2 ^ 63) :
    wordReach a b step = .ok (Int64.ofInt (reach step a.toInt b.toInt)) := by
  unfold wordReach reach
  simp only [Int64.lt_iff_toInt_lt (x := b), Int64.lt_iff_toInt_lt (x := a)]
  by_cases down : step < 0
  · have negative := neg_iff.mp down
    have notUp : ¬0 < step := fun up => by
      have := Int64.lt_iff_toInt_lt.mp up
      rw [Int64.toInt_zero] at this
      omega
    rw [if_pos down]
    by_cases apart : b.toInt < a.toInt
    · have stride : (Int64.ofInt (-step.toInt)).toInt = -step.toInt :=
        Int64.toInt_ofInt_of_le (by omega) (by omega)
      rw [if_pos ⟨down, apart⟩, if_pos apart, checked_bind (by omega) (by omega),
        wordSteps_ok apart near.1 (by omega), stride]
    · rw [if_neg fun both => apart both.2, if_neg fun both => notUp both.1, if_neg apart]
      rfl
  · have up : 0 < step := Int64.lt_iff_toInt_lt.mpr (toInt_pos h down)
    rw [if_neg down, if_neg fun both => down both.1]
    by_cases apart : a.toInt < b.toInt
    · rw [if_pos ⟨up, apart⟩, if_pos apart, wordSteps_ok apart near.2 (toInt_pos h down)]
    · rw [if_neg fun both => apart both.2, if_neg apart]
      rfl

theorem wordStep_toInt (step : Int64) : (wordStep step).toInt = max step.toInt (1 - 2 ^ 63) := by
  rw [wordStep, toInt_max]
  rfl

theorem wordStep_neg : wordStep step < 0 ↔ step < 0 := by
  rw [neg_iff, neg_iff, wordStep_toInt]
  omega

/-- Over the distance of two positions the least word and the next one are the same step. -/
theorem reach_wordStep (a b : Int) (near : a - b < 2 ^ 63) :
    reach (wordStep step) a b = reach step a b := by
  by_cases least : step.toInt = -2 ^ 63
  · have down : step < 0 := neg_iff.mpr (by omega)
    have value : (wordStep step).toInt = 1 - 2 ^ 63 := by
      rw [wordStep_toInt]
      omega
    unfold reach
    rw [if_pos (wordStep_neg.mpr down), if_pos down, value, least]
    split
    · rw [Int.ediv_eq_zero_of_lt (by omega) (by omega), Int.ediv_eq_zero_of_lt (by omega) (by omega)]
    · rfl
  · have same : wordStep step = step := by
      have := step.le_toInt
      rw [← Int64.toInt_inj, wordStep_toInt]
      omega
    rw [same]

/-- A bound computed on words is the one that is meant. -/
theorem wordBound_resolved {n low high : Int64} (hn : n.toInt = len) (hl : low.toInt = lowest step)
    (hh : high.toInt = highest step len) (default : Int64) (bound : Option Int64) :
    (wordBound n low high default bound).toInt = resolved step len default.toInt bound := by
  rw [wordBound_toInt hn, hl, hh, clamp_eq]

theorem wordHigh_ok {n : Int64} (step : Int64) (hn : n.toInt = len) : ∃ high,
    wordHigh (wordStep step) n = .ok high ∧ high.toInt = highest step len := by
  unfold wordHigh highest
  simp only [wordStep_neg]
  split
  · have := n.toInt_lt
    rw [checked_ok (by omega) (by omega), hn]
    exact ⟨_, rfl, Int64.toInt_ofInt_of_le (by omega) (by omega)⟩
  · exact ⟨n, rfl, hn⟩

/-- The bounds that are computed on words. -/
theorem spanWords_eq (start stop : Option Int64) (step : Int64) (hl : len < 2 ^ 63) :
    ∃ a b : Int64,
    a.toInt = first start step len ∧ b.toInt = last stop step len ∧
      spanWords start stop step len = (do
        let count ← wordReach a b (wordStep step)
        return (a, wordStep step, count)) := by
  have size : (Int64.ofInt len).toInt = len := Int64.toInt_ofInt_of_le (by omega) (by omega)
  obtain ⟨high, high_ok, top⟩ := wordHigh_ok step size
  obtain ⟨low, low_eq, bottom⟩ : ∃ low : Int64, (if wordStep step < 0 then -1 else 0) = low ∧
      low.toInt = lowest step := by
    unfold lowest
    simp only [wordStep_neg]
    split <;> exact ⟨_, rfl, rfl⟩
  have bound := wordBound_resolved size bottom top
  refine ⟨wordBound (Int64.ofInt len) low high (if wordStep step < 0 then high else low) start,
    wordBound (Int64.ofInt len) low high (if wordStep step < 0 then low else high) stop,
    (bound _ start).trans ?_, (bound _ stop).trans ?_, ?_⟩
  · unfold first
    simp only [apply_ite Int64.toInt, top, bottom, wordStep_neg]
  · unfold last
    simp only [apply_ite Int64.toInt, top, bottom, wordStep_neg]
  · unfold spanWords
    rw [checked_bind (by omega) (by omega)]
    dsimp only
    rw [high_ok, low_eq]
    rfl

/-- Two bounds of one sequence are less than a word apart. -/
theorem distance_lt (start stop : Option Int64) (step : Int64) (hl : len < 2 ^ 63) :
    first start step len - last stop step len < 2 ^ 63 ∧
      last stop step len - first start step len < 2 ^ 63 := by
  obtain ⟨low, high⟩ := first_bounds start step len
  obtain ⟨low', high'⟩ := last_bounds stop step len
  unfold lowest at low low'
  unfold highest at high high'
  by_cases down : step < 0
  · rw [if_pos down] at low high low' high'
    omega
  · rw [if_neg down] at low high low' high'
    omega

/-- The least word as a step never leads from one position to another. -/
theorem mul_wordStep {a b : Int} {k : Nat} (close : a - b < 2 ^ 63)
    (hk : Before step (a + k * step.toInt) b) :
    k * (wordStep step).toInt = k * step.toInt := by
  by_cases least : step.toInt = -2 ^ 63
  · unfold Before at hk
    rw [if_pos (neg_iff.mpr (by omega)), least] at hk
    have origin : k = 0 := by omega
    rw [origin, Int.natCast_zero, Int.zero_mul, Int.zero_mul]
  · have := step.le_toInt
    rw [wordStep_toInt, Int.max_eq_left (by omega)]

/-- **No computation with slices overflows**, for every length that is a word: neither that of
    the first position and the number of positions, nor that of any position. -/
theorem spanWords_ok (h : step ≠ 0) (hl : len < 2 ^ 63) : ∃ start' step' count,
    spanWords start stop step len = .ok (start', step', count) ∧
      start'.toInt = (Span.of start stop step len).start ∧
      count.toInt = (Span.of start stop step len).count ∧
      ∀ k p : Nat, (Span.of start stop step len).positions[k]? = some p →
        positionWord start' step' (Int64.ofInt k) = .ok (Int64.ofInt p) := by
  obtain ⟨a, b, ha, hb, unfolded⟩ := spanWords_eq start stop step hl
  have close := distance_lt start stop step hl
  have nonzero : wordStep step ≠ 0 := fun zero => by
    have value := wordStep_toInt step
    have := toInt_ne_zero h
    rw [zero, Int64.toInt_zero] at value
    omega
  have counted : wordReach a b (wordStep step) =
      .ok (Int64.ofInt (reach step (first start step len) (last stop step len))) := by
    rw [wordReach_ok nonzero (by rw [wordStep_toInt]; omega) (by rw [ha, hb]; exact close), ha, hb,
      reach_wordStep _ _ close.1]
  have some := reach_nonneg h (first start step len) (last stop step len)
  have few := reach_le step (first start step len) (last stop step len)
  rw [counted] at unfolded
  refine ⟨a, wordStep step, _, unfolded, by rw [ha, span_eq], ?_, fun k p hk => ?_⟩
  · rw [Int64.toInt_ofInt_of_le (by omega) (by omega), span_eq]
    show _ = ((reach _ _ _).toNat : Int)
    omega
  · obtain ⟨value, before⟩ := (Span.of_selects h k p).mp hk
    have inside := (position_bounds h before).2
    have position := (lt_reach_iff h _ _ k).mpr before
    obtain ⟨low, high⟩ := first_bounds start step len
    have ends : -1 ≤ first start step len ∧ first start step len ≤ len := by
      unfold lowest at low
      unfold highest at high
      split at low <;> split at high <;> omega
    unfold positionWord
    rw [Int64.toInt_ofInt_of_le (by omega) (by omega), mul_wordStep close.1 before,
      checked_bind (by omega) (by omega), Int64.toInt_ofInt_of_le (by omega) (by omega), ha,
      ← value, checked_ok (by omega) (by omega)]

end Sequence

end TieredMachine
