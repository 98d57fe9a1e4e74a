/-
  Feedback on running code.

  While a unit is interpreted, its conditional jumps, calls and binary operators
  report what they see: a truth value, a callee, two operand types.  The record
  of a place keeps the first observation, whether all others agreed with it, and
  counters.

  * `Site`: a place, the index of an instruction and the position of a primitive
    in it;
  * `Limited`: the first three distinct observations;
  * `SiteFeedback.observe`, `Feedback.observe`: recording an observation;
  * `Feedback.isConsistent`, `Feedback.stableCallee?`, `Feedback.branch?`: what
    code may be specialized on.
-/
import TieredMachine.Value.Basic

namespace TieredMachine

/-- A place that reports feedback. -/
structure Site where
  /-- the index of the instruction -/
  ip : Nat
  /-- the position of the primitive in the instruction -/
  prim : Nat
  deriving DecidableEq, Repr, Inhabited

namespace Site

/-- The written form of a place. -/
def text (s : Site) : String := s!"{s.ip}.{s.prim}"

/-- The order of places along the code. -/
def le (a b : Site) : Bool := a.ip < b.ip || (a.ip == b.ip && a.prim ≤ b.prim)

end Site

/-! ## Distinct observations -/

/-- The most distinct observations that are kept. -/
def maxFeedback : Nat := 3

/-- The first distinct observations, and whether there were more. -/
structure Limited (α : Type) where
  values : List α := []
  overflowed : Bool := false
  deriving DecidableEq, Repr, Inhabited

namespace Limited

variable {α : Type} [DecidableEq α]

/-- One more observation. -/
def add (l : Limited α) (a : α) : Limited α :=
  if a ∈ l.values then l
  else if l.values.length < maxFeedback then { l with values := l.values ++ [a] }
  else { l with overflowed := true }

/-- The only value observed, if there was exactly one. -/
def single? (l : Limited α) : Option α :=
  match l.values, l.overflowed with
  | [a], false => some a
  | _, _ => none

end Limited

/-! ## Records -/

/-- Outcomes of a conditional jump. -/
structure BranchCounts where
  takenTrue : Nat := 0
  takenFalse : Nat := 0
  /-- tests of values that were no truth values -/
  nonBool : Nat := 0
  deriving DecidableEq, Repr, Inhabited

namespace BranchCounts

/-- The number of tests. -/
def total (b : BranchCounts) : Nat := b.takenTrue + b.takenFalse

/-- The only outcome seen. -/
def direction? (b : BranchCounts) : Option Bool :=
  if b.takenTrue = 0 ∧ b.takenFalse = 0 then none
  else if b.takenFalse = 0 then some true
  else if b.takenTrue = 0 then some false
  else none

end BranchCounts

/-- What a place sees in one execution. -/
inductive Observed where
  | truth (b : Bool)
  | callee (v : Value)
  | types (lhs rhs : TypeTag)
  deriving DecidableEq, Repr, Inhabited

/-- Everything recorded for one place. -/
structure SiteFeedback where
  /-- the first observation -/
  stable : Observed
  /-- whether all observations agreed with the first -/
  consistent : Bool := true
  /-- the number of observations -/
  hits : Nat := 0
  branch : BranchCounts := {}
  callees : Limited Value.Identity := {}
  lhsTypes : Limited TypeTag := {}
  rhsTypes : Limited TypeTag := {}
  deriving Repr, Inhabited

namespace SiteFeedback

/-- One more observation. -/
def observe (s : SiteFeedback) (o : Observed) : SiteFeedback :=
  let s := { s with hits := s.hits + 1, consistent := s.consistent && s.stable = o }
  match o with
  | .truth true => { s with branch := { s.branch with takenTrue := s.branch.takenTrue + 1 } }
  | .truth false => { s with branch := { s.branch with takenFalse := s.branch.takenFalse + 1 } }
  | .callee v => { s with callees := s.callees.add v.identity }
  | .types l r => { s with lhsTypes := s.lhsTypes.add l, rhsTypes := s.rhsTypes.add r }

end SiteFeedback

/-- The records of a unit's places. -/
structure Feedback where
  records : List (Site × SiteFeedback) := []
  deriving Repr, Inhabited

namespace Feedback

variable (f : Feedback)

/-- The record of a place. -/
def get? (s : Site) : Option SiteFeedback := f.records.lookup s

/-- A list of records with the record of one place changed, or added at the
    end. -/
def update (s : Site) (first : SiteFeedback) (change : SiteFeedback → SiteFeedback) :
    List (Site × SiteFeedback) → List (Site × SiteFeedback)
  | [] => [(s, change first)]
  | (t, r) :: rest => if t = s then (t, change r) :: rest else (t, r) :: update s first change rest

/-- One more observation at a place. -/
def observe (s : Site) (o : Observed) : Feedback :=
  ⟨update s { stable := o } (·.observe o) f.records⟩

/-- One more test of a value at a conditional jump. -/
def recordBranch (s : Site) (tested : Value) (truth : Bool) : Feedback :=
  let count (r : SiteFeedback) : SiteFeedback :=
    let r := r.observe (.truth truth)
    match tested with
    | .bool _ => r
    | _ => { r with branch := { r.branch with nonBool := r.branch.nonBool + 1 } }
  ⟨update s { stable := .truth truth } count f.records⟩

/-- One more call of a value at a call. -/
def recordCallee (s : Site) (callee : Value) : Feedback := f.observe s (.callee callee)

/-- One more pair of operands at an operator. -/
def recordOperands (s : Site) (lhs rhs : Value) : Feedback :=
  f.observe s (.types lhs.tag rhs.tag)

/-- Whether a place was observed, and always the same way. -/
def isConsistent (s : Site) : Bool :=
  match f.get? s with
  | some r => r.consistent && 0 < r.hits
  | none => false

/-- Whether a place was observed often enough, and always the same way. -/
def isConsistentWith (s : Site) (minSamples : Nat) : Bool :=
  match f.get? s with
  | some r => r.consistent && max minSamples 1 ≤ r.hits
  | none => false

/-- The outcomes of a conditional jump. -/
def branch? (s : Site) : Option BranchCounts := (f.get? s).map (·.branch)

/-- The callee that a call always saw. -/
def stableCallee? (s : Site) : Option Value :=
  match f.get? s with
  | some { stable := .callee v, consistent := true, .. } => some v
  | _ => none

/-- Whether both operands at an operator were always integers; nothing when the
    place was never observed. -/
def intOperands? (s : Site) : Option Bool :=
  (f.get? s).map fun r =>
    r.lhsTypes.single? = some .int && r.rhsTypes.single? = some .int

/-- The number of places observed. -/
def size : Nat := f.records.length

/-- The records, along the code. -/
def sites : List (Site × SiteFeedback) := f.records.mergeSort fun a b => a.1.le b.1

/-- The feedback in diagnostics. -/
def inspect : String := s!"FeedbackMap \x7b sites: {f.size} \x7d"

end Feedback

end TieredMachine
