/-
  Hotness and tier state of a unit.

  A unit is interpreted at first.  Every activation and, with a weight, every
  backward jump makes it hotter.  A compilation first claims the unit; when it
  succeeds native code is installed, when it fails the unit is interpreted for
  good, as it is after too many fatal bails.  Only a reset undoes that.

  * `TierState`: the tier and what is installed;
  * `Profile`: the state with the counters, and one function per operation on
    it;
  * `Profile.runnable?`: the native code that the next activation runs.
-/
import TieredMachine.Native.Code

namespace TieredMachine

/-- The hotness at which a unit is compiled, unless configured otherwise. -/
def hotThreshold : Nat := 10000

/-- The hotness that a backward jump adds, unless configured otherwise. -/
def defaultBackedgeWeight : Nat := 10

/-- The tier of a unit and what is installed for it. -/
structure TierState where
  tier : Tier := .interpreted
  /-- the level of the installed code, or the one asked for last -/
  level : Option OptLevel := none
  /-- whether installed code is used -/
  useNative : Bool := false
  /-- whether the unit was compiled or pinned on request, which ends automatic
      compilation -/
  manual : Bool := false
  native : Option NativeFunction := none
  graph : Option Graph := none
  deriving Inhabited

namespace TierState

/-- The native code that an activation runs. -/
def runnable? (s : TierState) : Option NativeFunction :=
  if s.tier = .native && s.useNative then s.native else none

/-- The state without native code, in another tier. -/
def drop (s : TierState) (tier : Tier) : TierState :=
  { s with tier, useNative := false, native := none, graph := none }

end TierState

/-- The counters and the tier state of a unit. -/
structure Profile where
  /-- activations and weighted backward jumps, as a 64-bit word -/
  hotness : UInt64 := 0
  calls : Nat := 0
  backedges : Nat := 0
  bails : Nat := 0
  fatalBails : Nat := 0
  /-- the compilations claimed so far, resets included -/
  compileCount : Nat := 0
  state : TierState := {}
  deriving Inhabited

namespace Profile

variable (p : Profile)

/-! ## Counters -/

/-- One activation. -/
def recordEntry : Profile := { p with calls := p.calls + 1, hotness := p.hotness + 1 }

/-- The hotness that `recordEntry` reports: one more than before, as far as
    there is one more. -/
def entryHotness : UInt64 := if p.hotness + 1 = 0 then p.hotness else p.hotness + 1

/-- One backward jump. -/
def recordBackedge (weight : UInt64) : Profile :=
  { p with backedges := p.backedges + 1, hotness := p.hotness + weight }

/-! ## State -/

/-- The current tier. -/
def tier : Tier := p.state.tier

/-- The native code that the next activation runs. -/
def runnable? : Option NativeFunction := p.state.runnable?

/-- Whether the next activation runs native code. -/
def usesNative : Bool := p.runnable?.isSome

/-- Whether the installed code relies on bindings of global names. -/
def assumesGlobals : Bool := (p.state.graph.map (·.assumesGlobals)).getD false

/-- Whether the interpreter reports feedback. -/
def collectsFeedback : Bool := p.tier = .interpreted

/-- Whether a compilation may claim the unit. -/
def mayBegin (manual : Bool) : Bool :=
  match p.tier with
  | .interpreted => true
  | .native => manual
  | .compiling | .permanentlyInterpreted => false

/-- Claims the unit for a compilation, if it may be claimed. -/
def beginCompile (manual : Bool) : Profile :=
  if p.mayBegin manual then
    { p with
      compileCount := p.compileCount + 1
      state := { p.state with tier := .compiling, manual := p.state.manual || manual } }
  else p

/-- Installs the result of a claimed compilation. -/
def finishCompile (level : OptLevel) (graph : Graph) (native : NativeFunction) : Profile :=
  { p with state := { p.state with
      tier := .native, level := some level, useNative := true
      graph := some graph, native := some native } }

/-- A claimed compilation failed. -/
def failCompile : Profile := { p with state := p.state.drop .permanentlyInterpreted }

/-- Whether one more bail ends native execution, for the number of fatal bails
    that are tolerated. -/
def disables (fatal : Bool) (maxFatalBails : Nat) : Bool :=
  fatal && max maxFatalBails 1 ≤ p.fatalBails + 1 && p.tier != .permanentlyInterpreted

/-- One bail. -/
def recordBail (fatal : Bool) (maxFatalBails : Nat) : Profile :=
  let fatalBails := p.fatalBails + fatal.toNat
  let state := if fatal && max maxFatalBails 1 ≤ fatalBails
    then p.state.drop .permanentlyInterpreted else p.state
  { p with bails := p.bails + 1, fatalBails, state }

/-- Pins the unit at a level without compiling it.  The lowest level drops
    native code. -/
def setManualLevel (level : OptLevel) : Profile :=
  let s := { p.state with manual := true, level := some level }
  { p with state := if level = .unoptimized && s.tier = .native then s.drop .interpreted else s }

/-- Turns the use of installed code on or off. -/
def setUseNative (on : Bool) : Profile :=
  { p with state := { p.state with manual := true, useNative := on } }

/-- A fresh profile, except for the number of compilations. -/
def reset : Profile := { compileCount := p.compileCount }

end Profile

/-- What changes about a unit while it runs. -/
structure UnitState where
  profile : Profile := {}
  feedback : Feedback := {}
  deriving Inhabited

end TieredMachine
