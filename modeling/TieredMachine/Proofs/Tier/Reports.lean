/-
  What is left of a history of reports.

  Instrumented places report what they see, in any order and as often as they run.  The
  record of a place is made of the reports from there alone.  It keeps three values of each
  kind and some counters, and these still tell how many reports there were, what the first
  one was, and whether all others agreed with it.

  * `Report`, `Feedback.after`, `seenAt`: reports, what they leave, and those of one place;
  * `Limited.Holds`, `Limited.Holds.add`: the first distinct values;
  * `SiteFeedback.Counts`, `SiteFeedback.Reflects`: a record, against the reports;
  * `after_get?`, `after_reflects`: the record of every place, after any history;
  * `Agreed`, `isConsistentWith_iff`, `stableCallee?_iff`, `intOperands?_iff`: what is asked
    about a place, against the reports.
-/
import TieredMachine.Tier.Feedback

namespace TieredMachine

/-! ## Reports -/

/-- What a place reports of one execution. -/
inductive Report where
  /-- a conditional jump, with the truth of the value it tested -/
  | branch (tested : Value) (truth : Bool)
  /-- a call -/
  | callee (v : Value)
  /-- a binary operator -/
  | operands (lhs rhs : Value)
  deriving DecidableEq, Repr, Inhabited

namespace Report

/-- What other reports have to agree with. -/
def observed : Report → Observed
  | branch _ truth => .truth truth
  | callee v => .callee v
  | operands lhs rhs => .types lhs.tag rhs.tag

/-- Whether a value was tested that is no truth value. -/
def testsOther : Report → Bool
  | branch tested _ => tested.tag ≠ .bool
  | _ => false

/-- What tells the callee apart. -/
def callee? : Report → Option Value.Identity
  | callee v => some v.identity
  | _ => none

/-- The type of the left operand. -/
def lhs? : Report → Option TypeTag
  | operands lhs _ => some lhs.tag
  | _ => none

/-- The type of the right operand. -/
def rhs? : Report → Option TypeTag
  | operands _ rhs => some rhs.tag
  | _ => none

end Report

/-- One more report of a place. -/
def Feedback.record (f : Feedback) (s : Site) : Report → Feedback
  | .branch tested truth => f.recordBranch s tested truth
  | .callee v => f.recordCallee s v
  | .operands lhs rhs => f.recordOperands s lhs rhs

/-- What a history leaves, whatever the places. -/
def Feedback.after (history : List (Site × Report)) : Feedback :=
  history.foldl (fun f x => f.record x.1 x.2) {}

/-- The reports of a place, in order. -/
def seenAt (history : List (Site × Report)) (s : Site) : List Report :=
  (history.filter (·.1 = s)).map (·.2)

/-! ## Distinct values -/

namespace Limited

variable {α : Type} [DecidableEq α] {l : Limited α} {added : List α}

/-- The list holds what is left of the values that were added to it. -/
structure Holds (l : Limited α) (added : List α) : Prop where
  /-- the first distinct ones, in the order they came -/
  values : l.values = added.eraseDups.take maxFeedback
  /-- one more distinct value came -/
  overflowed : l.overflowed ↔ maxFeedback < added.eraseDups.length
  /-- exactly one value ever came -/
  single : ∀ v, l.single? = some v ↔ added ≠ [] ∧ ∀ a ∈ added, a = v

/-- A value that was there already is not distinct. -/
theorem eraseDups_concat (added : List α) (a : α) : (added ++ [a]).eraseDups =
    if a ∈ added then added.eraseDups else added.eraseDups ++ [a] := by
  rw [List.eraseDups_append]
  by_cases ha : a ∈ added <;> simp [ha, List.removeAll, List.eraseDups_cons]

theorem eraseDups_eq_singleton {v : α} :
    added.eraseDups = [v] ↔ added ≠ [] ∧ ∀ a ∈ added, a = v := by
  constructor
  · intro h
    refine ⟨fun none => ?_, fun a ha => ?_⟩
    · rw [none] at h
      cases h
    · have : a ∈ added.eraseDups := List.mem_eraseDups.mpr ha
      rw [h] at this
      exact List.mem_singleton.mp this
  · rintro ⟨some, all⟩
    cases added with
    | nil => contradiction
    | cons a rest =>
      obtain rfl : a = v := all a List.mem_cons_self
      have others : rest.filter (fun b => !b == a) = [] := by
        refine List.filter_eq_nil_iff.mpr fun b hb => ?_
        simp [all b (List.mem_cons_of_mem a hb)]
      rw [List.eraseDups_cons, others]
      rfl

/-- The only value is known from the values that are kept. -/
theorem Holds.of_distinct (values : l.values = added.eraseDups.take maxFeedback)
    (overflowed : l.overflowed ↔ maxFeedback < added.eraseDups.length) : l.Holds added := by
  refine ⟨values, overflowed, fun v => ?_⟩
  rw [← eraseDups_eq_singleton]
  obtain ⟨kept, more⟩ := l
  constructor
  · intro h
    unfold single? at h
    split at h
    · rename_i a hkept none
      cases h
      have few : added.eraseDups.length ≤ maxFeedback := by
        refine Nat.le_of_not_lt fun more => ?_
        rw [← overflowed, none] at more
        cases more
      rw [List.take_of_length_le few] at values
      rw [← values]
      exact hkept
    · cases h
  · intro h
    rw [h] at values overflowed
    obtain rfl : kept = [v] := values
    have : more = false := by simpa [maxFeedback] using overflowed
    rw [this]
    rfl

theorem Holds.empty : ({} : Limited α).Holds [] := .of_distinct rfl (by simp)

/-- One more value. -/
theorem Holds.add (h : l.Holds added) (a : α) : (l.add a).Holds (added ++ [a]) := by
  obtain ⟨values, overflowed, -⟩ := h
  have kept : a ∈ l.values → a ∈ added := fun ha => by
    rw [values] at ha
    exact List.mem_eraseDups.mp (List.mem_of_mem_take ha)
  have size : l.values.length = min maxFeedback added.eraseDups.length := by
    rw [values, List.length_take]
  unfold Limited.add
  by_cases there : a ∈ l.values
  · rw [if_pos there]
    refine .of_distinct ?_ ?_ <;> rw [eraseDups_concat, if_pos (kept there)]
    · exact values
    · exact overflowed
  rw [if_neg there]
  by_cases old : a ∈ added
  · -- it was dropped before, so the list is full
    have full : maxFeedback < added.eraseDups.length := by
      refine Nat.lt_of_not_le fun few => there ?_
      rw [values, List.take_of_length_le few]
      exact List.mem_eraseDups.mpr old
    rw [if_neg (by omega)]
    refine .of_distinct ?_ ?_ <;> rw [eraseDups_concat, if_pos old]
    · exact values
    · exact iff_of_true rfl full
  · by_cases room : l.values.length < maxFeedback
    · have few : added.eraseDups.length < maxFeedback := by omega
      rw [if_pos room]
      refine .of_distinct ?_ ?_ <;> rw [eraseDups_concat, if_neg old]
      · show l.values ++ [a] = _
        rw [values, List.take_of_length_le (Nat.le_of_lt few),
          List.take_of_length_le (by simp; omega)]
      · show l.overflowed ↔ _
        rw [overflowed]
        simp
        omega
    · rw [if_neg room]
      refine .of_distinct ?_ ?_ <;> rw [eraseDups_concat, if_neg old]
      · show l.values = _
        rw [values, List.take_append_of_le_length (by omega)]
      · refine iff_of_true rfl ?_
        simp
        omega

end Limited

/-! ## Records -/

namespace SiteFeedback

/-- The record counts the reports, and keeps what was distinct in them. -/
structure Counts (r : SiteFeedback) (seen : List Report) : Prop where
  consistent : r.consistent ↔ ∀ x ∈ seen, x.observed = r.stable
  hits : r.hits = seen.length
  takenTrue : r.branch.takenTrue = seen.countP (·.observed = .truth true)
  takenFalse : r.branch.takenFalse = seen.countP (·.observed = .truth false)
  nonBool : r.branch.nonBool = seen.countP (·.testsOther)
  callees : r.callees.Holds (seen.filterMap (·.callee?))
  lhsTypes : r.lhsTypes.Holds (seen.filterMap (·.lhs?))
  rhsTypes : r.rhsTypes.Holds (seen.filterMap (·.rhs?))

/-- The record reflects the reports, of which there is at least one. -/
structure Reflects (r : SiteFeedback) (seen : List Report) : Prop extends r.Counts seen where
  /-- the first report is what the others have to agree with -/
  first : seen.head?.map (·.observed) = some r.stable

/-- One more report. -/
def saw (r : SiteFeedback) (x : Report) : SiteFeedback :=
  let r := r.observe x.observed
  if x.testsOther then { r with branch := { r.branch with nonBool := r.branch.nonBool + 1 } }
  else r

/-- One more report to the record of a place, if there is one. -/
def heard (r : Option SiteFeedback) (x : Report) : Option SiteFeedback :=
  some ((r.getD { stable := x.observed }).saw x)

variable {r : SiteFeedback} {seen : List Report}

/-! ### What one more report changes -/

/-- A report changes the first observation never, and the counters by one at most. -/
theorem saw_eq (r : SiteFeedback) (x : Report) : r.saw x =
    { stable := r.stable
      consistent := r.consistent && r.stable = x.observed
      hits := r.hits + 1
      branch :=
        { takenTrue := r.branch.takenTrue + if x.observed = .truth true then 1 else 0
          takenFalse := r.branch.takenFalse + if x.observed = .truth false then 1 else 0
          nonBool := r.branch.nonBool + if x.testsOther then 1 else 0 }
      callees := x.callee?.elim r.callees r.callees.add
      lhsTypes := x.lhs?.elim r.lhsTypes r.lhsTypes.add
      rhsTypes := x.rhs?.elim r.rhsTypes r.rhsTypes.add } := by
  cases x with
  | branch tested truth =>
    unfold saw
    split <;> cases truth <;> rfl
  | callee v => rfl
  | operands lhs rhs => rfl

theorem counts_fresh (o : Observed) : ({ stable := o } : SiteFeedback).Counts [] where
  consistent := by simp
  hits := rfl
  takenTrue := rfl
  takenFalse := rfl
  nonBool := rfl
  callees := .empty
  lhsTypes := .empty
  rhsTypes := .empty

/-- A list of values that some reports add to. -/
theorem holds_elim {α : Type} [DecidableEq α] {l : Limited α} {value? : Report → Option α}
    (h : l.Holds (seen.filterMap value?)) (x : Report) :
    ((value? x).elim l l.add).Holds ((seen ++ [x]).filterMap value?) := by
  rw [List.filterMap_append]
  cases hx : value? x with
  | none => simpa [hx] using h
  | some a => simpa [hx] using h.add a

/-- What one more report adds to a record that counts. -/
theorem Counts.saw (h : r.Counts seen) (x : Report) : (r.saw x).Counts (seen ++ [x]) := by
  rw [saw_eq]
  exact {
    consistent := by
      rw [Bool.and_eq_true, decide_eq_true_eq, h.consistent, List.forall_mem_append,
        List.forall_mem_singleton]
      exact and_congr_right fun _ => eq_comm
    hits := by rw [h.hits, List.length_append, List.length_singleton]
    takenTrue := by simp only [h.takenTrue, List.countP_append, List.countP_singleton,
      decide_eq_true_eq]
    takenFalse := by simp only [h.takenFalse, List.countP_append, List.countP_singleton,
      decide_eq_true_eq]
    nonBool := by simp only [h.nonBool, List.countP_append, List.countP_singleton]
    callees := holds_elim h.callees x
    lhsTypes := holds_elim h.lhsTypes x
    rhsTypes := holds_elim h.rhsTypes x }

/-- What the reports of a place leave. -/
theorem heard_reflects (x : Report) (seen : List Report) :
    ∃ r, (x :: seen).foldl heard none = some r ∧ r.Reflects (x :: seen) := by
  have run (rest : List Report) : ∀ (past : List Report) (r : SiteFeedback), r.Reflects past →
      ∃ r', rest.foldl heard (some r) = some r' ∧ r'.Reflects (past ++ rest) := by
    induction rest with
    | nil => exact fun past r h => ⟨r, rfl, by rwa [List.append_nil]⟩
    | cons y rest ih =>
      intro past r h
      have first : (past ++ [y]).head?.map (·.observed) = some (r.saw y).stable := by
        obtain ⟨x, hx, stable⟩ := Option.map_eq_some_iff.mp h.first
        rw [List.head?_append, hx, saw_eq]
        exact congrArg some stable
      obtain ⟨r', hr', reflects⟩ := ih (past ++ [y]) (r.saw y) ⟨h.toCounts.saw y, first⟩
      exact ⟨r', hr', by simpa using reflects⟩
  have first : (({ stable := x.observed } : SiteFeedback).saw x).Reflects [x] :=
    ⟨(counts_fresh _).saw x, by rw [saw_eq]; rfl⟩
  exact run seen [x] _ first

end SiteFeedback

/-! ## Histories -/

namespace Feedback

open SiteFeedback (heard)

variable {f : Feedback} {s t : Site} {history : List (Site × Report)}

theorem lookup_update (first : SiteFeedback) (change : SiteFeedback → SiteFeedback)
    (records : List (Site × SiteFeedback)) : (update s first change records).lookup t =
      if t = s then some (change ((records.lookup s).getD first)) else records.lookup t := by
  induction records with
  | nil =>
    rw [update, List.lookup_cons]
    by_cases ht : t = s
    · simp [ht]
    · rw [beq_false_of_ne ht, if_neg ht]
  | cons x records ih =>
    obtain ⟨place, r⟩ := x
    unfold update
    by_cases hp : place = s
    · subst hp
      rw [if_pos rfl, List.lookup_cons, List.lookup_cons, List.lookup_cons]
      by_cases ht : t = place
      · simp [ht]
      · rw [beq_false_of_ne ht, if_neg ht]
    · rw [if_neg hp, List.lookup_cons, List.lookup_cons, List.lookup_cons, ih]
      by_cases ht : t = s
      · subst ht
        simp [beq_false_of_ne (Ne.symm hp)]
      · rw [if_neg ht, if_neg ht]

/-- Reports of all kinds are recorded alike. -/
theorem record_eq (f : Feedback) (s : Site) (x : Report) :
    f.record s x = ⟨update s { stable := x.observed } (·.saw x) f.records⟩ := by
  cases x with
  | branch tested truth => cases tested <;> rfl
  | callee v => rfl
  | operands lhs rhs => rfl

/-- One more report changes the record of its place, and no other. -/
theorem get?_record (x : Report) :
    (f.record s x).get? t = if t = s then heard (f.get? s) x else f.get? t := by
  rw [record_eq]
  exact lookup_update _ _ _

/-- Every place is told the reports from there, and no others. -/
theorem get?_foldl (history : List (Site × Report)) (f : Feedback) (s : Site) :
    (history.foldl (fun f x => f.record x.1 x.2) f).get? s =
      (seenAt history s).foldl heard (f.get? s) := by
  induction history generalizing f with
  | nil => rfl
  | cons x history ih =>
    rw [List.foldl_cons, ih, get?_record]
    unfold seenAt
    by_cases hx : x.1 = s
    · rw [List.filter_cons_of_pos (by simpa using hx), if_pos hx.symm, hx]
      rfl
    · rw [List.filter_cons_of_neg (by simpa using hx), if_neg (Ne.symm hx)]

theorem after_get? (history : List (Site × Report)) (s : Site) :
    (after history).get? s = (seenAt history s).foldl heard none := get?_foldl history {} s

/-- Reports from elsewhere might as well not have been made. -/
theorem after_filter (history : List (Site × Report)) (s : Site) :
    (after (history.filter (·.1 = s))).get? s = (after history).get? s := by
  rw [after_get?, after_get?]
  unfold seenAt
  rw [List.filter_filter]
  simp only [Bool.and_self]

theorem after_none_iff : (after history).get? s = none ↔ seenAt history s = [] := by
  rw [after_get?]
  cases seenAt history s with
  | nil => exact iff_of_true rfl rfl
  | cons x seen =>
    obtain ⟨r, hr, -⟩ := SiteFeedback.heard_reflects x seen
    simp [hr]

/-- The record of a place reflects the reports from there. -/
theorem after_reflects {r : SiteFeedback} (h : (after history).get? s = some r) :
    r.Reflects (seenAt history s) := by
  rw [after_get?] at h
  cases hseen : seenAt history s with
  | nil =>
    rw [hseen] at h
    cases h
  | cons x seen =>
    obtain ⟨r', hr', reflects⟩ := SiteFeedback.heard_reflects x seen
    rw [hseen, hr'] at h
    exact Option.some.inj h ▸ reflects

end Feedback

/-! ## What is asked about a place -/

/-- There were reports, and all of them observed the same. -/
def Agreed (seen : List Report) (o : Observed) : Prop := seen ≠ [] ∧ ∀ x ∈ seen, x.observed = o

namespace SiteFeedback

variable {r : SiteFeedback} {seen : List Report}

theorem Reflects.ne_nil (h : r.Reflects seen) : seen ≠ [] := fun none => by
  have := h.first
  rw [none] at this
  cases this

/-- A record is consistent when all reports agreed with the first one. -/
theorem Reflects.agreed_iff (h : r.Reflects seen) {o : Observed} :
    Agreed seen o ↔ r.consistent ∧ r.stable = o := by
  constructor
  · rintro ⟨-, all⟩
    obtain ⟨x, hx, stable⟩ := Option.map_eq_some_iff.mp h.first
    have ho : r.stable = o := stable ▸ all x (List.mem_of_head? hx)
    exact ⟨h.consistent.mpr fun y hy => (all y hy).trans ho.symm, ho⟩
  · rintro ⟨consistent, rfl⟩
    exact ⟨h.ne_nil, h.consistent.mp consistent⟩

end SiteFeedback

/-- The number of tests that came out one way. -/
def BranchCounts.taken (c : BranchCounts) (way : Bool) : Nat :=
  if way then c.takenTrue else c.takenFalse

theorem BranchCounts.direction?_eq_some {c : BranchCounts} {way : Bool} :
    c.direction? = some way ↔ c.taken way ≠ 0 ∧ c.taken (!way) = 0 := by
  unfold direction? taken
  cases way <;> grind

namespace SiteFeedback

variable {r : SiteFeedback} {seen : List Report}

theorem Counts.taken (h : r.Counts seen) (way : Bool) :
    r.branch.taken way = seen.countP (·.observed = .truth way) := by
  cases way with
  | true => exact h.takenTrue
  | false => exact h.takenFalse

/-- All tests of a conditional jump came out the same way. -/
theorem Reflects.direction?_iff (h : r.Reflects seen) {way : Bool} :
    r.consistent ∧ r.branch.direction? = some way ↔ Agreed seen (.truth way) := by
  rw [BranchCounts.direction?_eq_some, h.taken, h.taken, h.agreed_iff]
  refine and_congr_right fun consistent => ?_
  have agrees := h.consistent.mp consistent
  constructor
  · rintro ⟨some, -⟩
    obtain ⟨x, hx, way⟩ := List.countP_pos_iff.mp (Nat.pos_of_ne_zero some)
    exact (agrees x hx).symm.trans (of_decide_eq_true way)
  · intro stable
    obtain ⟨x, hx⟩ := List.exists_mem_of_ne_nil seen h.ne_nil
    have one {y : Report} (hy : y ∈ seen) : y.observed = .truth way := (agrees y hy).trans stable
    refine ⟨Nat.ne_of_gt (List.countP_pos_iff.mpr ⟨x, hx, decide_eq_true (one hx)⟩),
      List.countP_eq_zero.mpr fun y hy => ?_⟩
    rw [one hy]
    cases way <;> decide

/-- Both operands were always integers.  Places that see operands see nothing else. -/
theorem Reflects.ints_iff (h : r.Reflects seen) (operands : ∀ x ∈ seen, ∃ a b, x = .operands a b) :
    (r.lhsTypes.single? = some .int ∧ r.rhsTypes.single? = some .int) ↔
      Agreed seen (.types .int .int) := by
  rw [h.lhsTypes.single, h.rhsTypes.single]
  constructor
  · rintro ⟨⟨-, left⟩, -, right⟩
    refine ⟨h.ne_nil, fun x hx => ?_⟩
    obtain ⟨a, b, rfl⟩ := operands x hx
    have ha : a.tag = .int := left a.tag (List.mem_filterMap.mpr ⟨_, hx, rfl⟩)
    have hb : b.tag = .int := right b.tag (List.mem_filterMap.mpr ⟨_, hx, rfl⟩)
    show Observed.types a.tag b.tag = _
    rw [ha, hb]
  · rintro ⟨some, all⟩
    have only {tag? : Report → Option TypeTag} (ints : ∀ x ∈ seen, tag? x = .some .int) :
        seen.filterMap tag? ≠ [] ∧ ∀ t ∈ seen.filterMap tag?, t = .int := by
      obtain ⟨x, hx⟩ := List.exists_mem_of_ne_nil seen some
      refine ⟨List.ne_nil_of_mem (List.mem_filterMap.mpr ⟨x, hx, ints x hx⟩), fun t ht => ?_⟩
      obtain ⟨y, hy, hty⟩ := List.mem_filterMap.mp ht
      exact (Option.some.inj ((ints y hy).symm.trans hty)).symm
    have tags (x : Report) (hx : x ∈ seen) : x.lhs? = .some .int ∧ x.rhs? = .some .int := by
      obtain ⟨a, b, rfl⟩ := operands x hx
      simpa [Report.observed, Report.lhs?, Report.rhs?] using all _ hx
    exact ⟨only fun x hx => (tags x hx).1, only fun x hx => (tags x hx).2⟩

end SiteFeedback

namespace Feedback

variable {s : Site} {history : List (Site × Report)}

/-- A place is consistent with the samples that are needed, and its tests went one way. -/
theorem after_speculation {samples : Nat} {way : Bool} :
    (after history).isConsistentWith s samples ∧
      ((after history).branch? s).bind (·.direction?) = some way ↔
    max samples 1 ≤ (seenAt history s).length ∧ Agreed (seenAt history s) (.truth way) := by
  unfold isConsistentWith branch?
  cases hr : (after history).get? s with
  | none =>
    have none := after_none_iff.mp hr
    simp [none, Agreed]
  | some r =>
    have reflects := after_reflects hr
    rw [← reflects.direction?_iff, ← reflects.hits]
    simp only [Bool.and_eq_true, decide_eq_true_eq, Option.map_some, Option.bind_some]
    rw [and_assoc, and_left_comm]

/-- All calls had the same callee. -/
theorem after_stableCallee? {v : Value} :
    (after history).stableCallee? s = some v ↔ Agreed (seenAt history s) (.callee v) := by
  unfold stableCallee?
  cases hr : (after history).get? s with
  | none =>
    have none := after_none_iff.mp hr
    simp [none, Agreed]
  | some r =>
    rw [(after_reflects hr).agreed_iff]
    obtain ⟨stable, consistent⟩ := r
    cases stable <;> cases consistent <;> simp

/-- Both operands were always integers. -/
theorem after_intOperands? (operands : ∀ x ∈ seenAt history s, ∃ a b, x = .operands a b) :
    (after history).intOperands? s = some true ↔ Agreed (seenAt history s) (.types .int .int) := by
  unfold intOperands?
  cases hr : (after history).get? s with
  | none =>
    have none := after_none_iff.mp hr
    simp [none, Agreed]
  | some r =>
    rw [← (after_reflects hr).ints_iff operands]
    simp

end Feedback

end TieredMachine
