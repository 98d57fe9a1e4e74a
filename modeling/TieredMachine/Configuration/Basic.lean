/-
  The configuration of an engine.

  * `Configuration`: the settings, with their defaults;
  * `Configuration.automaticLevel`: the level of automatic compilation;
  * `Configuration.inspect`: the settings in diagnostics.
-/
import TieredMachine.Tier.Profile

namespace TieredMachine

/-- The settings of an engine. -/
structure Configuration where
  /-- the hotness at which a unit is compiled -/
  hotnessThreshold : Nat := hotThreshold
  /-- the hotness that a backward jump adds -/
  backedgeWeight : Nat := defaultBackedgeWeight
  /-- when units are compiled without being asked for -/
  control : Control := .whenHot
  /-- the number of the level of automatic compilation -/
  defaultLevel : Int := 2
  backend : BackendKind := .auto
  /-- the fatal bails after which a unit is interpreted for good -/
  maxFatalBails : Nat := 1
  /-- the tests that a branch needs before it is speculated on -/
  branchMinSamples : Nat := 200
  /-- whether a guard bail raises an exception -/
  bailError : Bool := false
  /-- the greatest number of nested calls -/
  recursionLimit : Nat := 1000
  /-- whether events are recorded from the start -/
  recordEvents : Bool := false
  /-- the number of events kept -/
  eventCapacity : Nat := 65536
  deriving DecidableEq, Repr, Inhabited

namespace Configuration

variable (c : Configuration)

/-- The level of automatic compilation. -/
def automaticLevel : OptLevel := .forAutomatic c.defaultLevel

/-- The settings in diagnostics. -/
def inspect : String :=
  let fields := [
    s!"hotness_threshold: {c.hotnessThreshold}",
    s!"backedge_weight: {c.backedgeWeight}",
    s!"jit_control: {c.control.label}",
    s!"default_opt_level: {c.defaultLevel}",
    s!"backend: {c.backend.label}",
    s!"max_fatal_bails: {c.maxFatalBails}",
    s!"branch_min_samples: {c.branchMinSamples}",
    s!"bail_error: {c.bailError}",
    s!"recursion_limit: {c.recursionLimit}",
    s!"record_events: {c.recordEvents}",
    s!"event_capacity: {c.eventCapacity}"]
  "EngineConfig \x7b " ++ Text.join ", " fields ++ " \x7d"

end Configuration

end TieredMachine
