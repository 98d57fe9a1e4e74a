/-
  What becomes of the items at some positions.

  * `Picked`, `pick_picked`: the items that are read;
  * `kept`, `erase_toList`: the items that are left when some are taken out;
  * `Replaced`, `overwrite_replaced`: a sequence with some items replaced one by one;
  * `splice_toList`: a sequence with a range of items replaced as a whole.
-/
import Mathlib.Data.List.Nodup
import TieredMachine.Sequence.Slice

namespace TieredMachine

namespace Sequence

variable {α : Type} {items : Array α} {positions : List Nat}

/-! ## Reading -/

/-- The items that are picked are the ones at the positions, in their order. -/
def Picked (items : Array α) (positions : List Nat) (picked : Array α) : Prop :=
  picked.toList.map some = positions.map (items[·]?)

theorem pick_picked (inside : ∀ p ∈ positions, p < items.size) :
    Picked items positions (pick items positions) := by
  show (positions.filterMap (items[·]?)).map some = _
  induction positions with
  | nil => rfl
  | cons p positions ih =>
    have hp := inside p List.mem_cons_self
    rw [List.filterMap_cons_some (Array.getElem?_eq_getElem hp), List.map_cons, List.map_cons,
      ih fun q hq => inside q (List.mem_cons_of_mem p hq), Array.getElem?_eq_getElem hp]

/-! ## Taking out -/

/-- The items at other positions, in their order; the first item is at position `i`. -/
def keptFrom (i : Nat) (items : List α) (positions : List Nat) : List α :=
  ((items.zipIdx i).filter (·.2 ∉ positions)).map (·.1)

/-- The items at other positions, in their order. -/
def kept (items : List α) (positions : List Nat) : List α := keptFrom 0 items positions

theorem keptFrom_cons (i : Nat) (a : α) (as : List α) (ps : List Nat) :
    keptFrom i (a :: as) ps = if i ∈ ps then keptFrom (i + 1) as ps else a :: keptFrom (i + 1) as ps := by
  unfold keptFrom
  rw [List.zipIdx_cons, List.filter_cons]
  by_cases h : i ∈ ps <;> simp [h]

theorem keptFrom_congr (i : Nat) (as : List α) {ps qs : List Nat} (h : ∀ j, j ∈ ps ↔ j ∈ qs) :
    keptFrom i as ps = keptFrom i as qs := by
  unfold keptFrom
  simp only [h]

theorem keptFrom_eq_self {i : Nat} (as : List α) {ps : List Nat} (before : ∀ q ∈ ps, q < i) :
    keptFrom i as ps = as := by
  induction as generalizing i with
  | nil => rfl
  | cons a as ih =>
    have absent : i ∉ ps := fun mem => Nat.lt_irrefl i (before i mem)
    rw [keptFrom_cons, if_neg absent, ih fun q hq => Nat.lt_succ_of_lt (before q hq)]

/-- To take out the last of the positions first leaves the other ones where they are. -/
theorem keptFrom_eraseIdx {i : Nat} (as : List α) {p : Nat} {ps : List Nat}
    (before : ∀ q ∈ ps, q < i + p) :
    keptFrom i (as.eraseIdx p) ps = keptFrom i as ((i + p) :: ps) := by
  induction as generalizing i p with
  | nil => rfl
  | cons a as ih =>
    cases p with
    | zero =>
      rw [Nat.add_zero] at before ⊢
      rw [List.eraseIdx_cons_zero, keptFrom_cons, if_pos List.mem_cons_self,
        keptFrom_eq_self as before, keptFrom_eq_self as]
      intro q hq
      rcases List.mem_cons.mp hq with rfl | hq
      · exact Nat.lt_succ_self q
      · exact Nat.lt_succ_of_lt (before q hq)
    | succ p =>
      have other : i ∈ (i + (p + 1)) :: ps ↔ i ∈ ps := by
        rw [List.mem_cons, or_iff_right (by omega)]
      have place : i + (p + 1) = i + 1 + p := by omega
      rw [List.eraseIdx_cons_succ, keptFrom_cons, keptFrom_cons, ih fun q hq => place ▸ before q hq]
      simp only [other, ← place]

/-- Items are taken out from the last one to the first. -/
theorem foldl_eraseIdx (items : Array α) {ps : List Nat} (descending : ps.Pairwise (· > ·)) :
    (ps.foldl (fun items i => items.eraseIdxIfInBounds i) items).toList = kept items.toList ps := by
  induction ps generalizing items with
  | nil => exact (keptFrom_eq_self _ fun _ hq => absurd hq List.not_mem_nil).symm
  | cons p ps ih =>
    obtain ⟨before, rest⟩ := List.pairwise_cons.mp descending
    have place : 0 + p = p := Nat.zero_add p
    rw [List.foldl_cons, ih _ rest, Array.toList_eraseIdxIfInBounds]
    exact (keptFrom_eraseIdx _ (by simpa [place] using before)).trans (by rw [place]; rfl)

theorem erase_toList (items : Array α) (nodup : positions.Nodup) :
    (erase items positions).toList = kept items.toList positions := by
  have sorted : (positions.mergeSort fun a b => b ≤ a).Pairwise fun a b => b ≤ a := by
    have : (positions.mergeSort fun a b => b ≤ a).Pairwise fun a b => decide (b ≤ a) :=
      List.pairwise_mergeSort (fun a b c => by simp only [decide_eq_true_eq]; omega)
      (fun a b => by simp only [Bool.or_eq_true, decide_eq_true_eq]; omega) positions
    simpa using this
  have distinct := (List.mergeSort_perm positions fun a b => b ≤ a).nodup_iff.mpr nodup
  have descending : (positions.mergeSort fun a b => b ≤ a).Pairwise (· > ·) :=
    (sorted.and distinct).imp fun h => by omega
  unfold erase
  rw [foldl_eraseIdx items descending]
  exact keptFrom_congr 0 _ fun j => (List.mergeSort_perm positions _).mem_iff

/-! ## Replacing -/

/-- The items at some positions are replaced one by one, and the other ones stay. -/
structure Replaced (items : Array α) (positions : List Nat) (new : List α) (result : Array α) :
    Prop where
  size : result.size = items.size
  replaced : ∀ k p : Nat, positions[k]? = some p → result[p]? = new[k]?
  untouched : ∀ p ∉ positions, result[p]? = items[p]?

theorem overwrite_replaced (inside : ∀ p ∈ positions, p < items.size) (nodup : positions.Nodup)
    {new : List α} (fits : new.length = positions.length) :
    Replaced items positions new (overwrite items positions new) := by
  induction positions generalizing items new with
  | nil => exact ⟨rfl, nofun, fun _ _ => rfl⟩
  | cons p ps ih =>
    cases new with
    | nil => cases fits
    | cons a as =>
      obtain ⟨absent, distinct⟩ := List.nodup_cons.mp nodup
      have hp := inside p List.mem_cons_self
      have size : (items.setIfInBounds p a).size = items.size := Array.size_setIfInBounds
      obtain ⟨whole, rest, other⟩ : Replaced (items.setIfInBounds p a) ps as _ :=
        ih (fun q hq => size ▸ inside q (List.mem_cons_of_mem p hq)) distinct (Nat.succ.inj fits)
      refine ⟨whole.trans size, fun k q hk => ?_, fun q hq => ?_⟩
      · cases k with
        | zero =>
          cases hk
          exact (other p absent).trans (Array.getElem?_setIfInBounds_self_of_lt hp)
        | succ k => exact rest k q hk
      · obtain ⟨ne, hq⟩ := not_or.mp (mt List.mem_cons.mpr hq)
        exact (other q hq).trans (Array.getElem?_setIfInBounds_ne fun same => ne same.symm)

theorem splice_toList (items new : Array α) (start count : Nat) :
    (splice items start count new).toList =
      items.toList.take start ++ new.toList ++ items.toList.drop (start + count) := by
  unfold splice
  rw [Array.toList_append, Array.toList_append, Array.toList_extract, Array.toList_extract]
  simp only [List.extract_eq_take_drop, List.drop_zero, Nat.sub_zero, Array.size_eq_length_toList]
  rw [← List.length_drop, List.take_length]

end Sequence

end TieredMachine
