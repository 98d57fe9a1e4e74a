/-
  Compilation of units and the knobs that control it.

  A compilation claims the unit, lowers it, has the backend make native code, and
  installs that.  A failure after the claim leaves the unit interpreted for
  good.

  * `Machine.compile`: a compilation;
  * `Machine.promote`: the compilation of a unit that is due for one, at the
    start of an activation;
  * `Machine.setLevel`, `Machine.setUseNative`, `Machine.resetTier`: the knobs;
  * `Machine.bail`: what a bail changes.
-/
import TieredMachine.Machine.Basic
import TieredMachine.Graph.Lowering

namespace TieredMachine

namespace Machine

variable (m : Machine)

/-- The options of a compilation.  Without globals, no binding of a global name is
    relied on. -/
def lowerOptions (level : OptLevel) (globals : Option Ref) : LowerOptions :=
  { level
    branchMinSamples := m.config.branchMinSamples
    spaces := globals.map fun g => (g, m.builtins) }

/-- The graph and the native code of a unit. -/
def translate (unit : Ref) (level : OptLevel) (globals : Option Ref) :
    Except CompileError (Graph × NativeFunction) := do
  let g ← lower m.heap (m.heap.unit unit) (m.unitState unit).feedback
    (m.lowerOptions level globals)
  let native ← m.config.backend.compile m.heap g level
  return (g, native)

/-- The machine with a unit on the list of units with native code. -/
def enlist (unit : Ref) (c : CompiledUnit) : Machine :=
  let m := m.forget unit
  { m with compiled := (unit, c) :: m.compiled }

/-- The machine after a claimed compilation. -/
def settle (unit : Ref) (level : OptLevel) :
    Except CompileError (Graph × NativeFunction) → Machine
  | .ok (g, native) =>
    (m.mapProfile unit (·.finishCompile level g native)).enlist unit
        ⟨native.name, level, native.backend⟩
      |>.mapStats fun s => { s with compilations := s.compilations + 1 }
  | .error e =>
    ((m.mapProfile unit (·.failCompile)).forget unit).mapStats fun s =>
      { s with
        compileFailures := s.compileFailures + 1
        loweringFailures := s.loweringFailures + e.isLoweringFailure.toNat }

/-- Compiles a unit at a level and installs the result.  A compilation on request
    may replace installed code, and ends automatic compilation of the unit. -/
def compile (unit : Ref) (level : OptLevel) (manual : Bool) (globals : Option Ref) :
    Except CompileError NativeFunction × Machine :=
  let p := m.profile unit
  if level = .unoptimized then (.error (.invalidOptLevel level.toInt), m)
  else if !p.mayBegin manual then
    (.error (if p.tier = .permanentlyInterpreted then .disabled else .alreadyNative), m)
  else
    let m := m.mapProfile unit (·.beginCompile manual)
    let m := ((m.record .compileStart).record .lowerStart).record .lowerEnd
    let result := m.translate unit level globals
    (result.map (·.2), (m.settle unit level result).record .compileEnd)

/-- Whether a unit is due for automatic compilation. -/
def isDue (unit : Ref) : Bool :=
  let p := m.profile unit
  p.tier = .interpreted && !p.state.manual &&
    match m.control with
    | .never => false
    | .whenHot => m.config.hotnessThreshold ≤ p.hotness.toNat
    | .always => true

/-- Compiles a unit if it is due, to run over some globals. -/
def promote (unit : Ref) (globals : Ref) : Machine :=
  if m.isDue unit then (m.compile unit m.config.automaticLevel false (some globals)).2 else m

/-! ## Knobs -/

/-- Compiles a unit at the level with a number, over the globals of the engine.
    The lowest level drops native code instead. -/
def setLevel (unit : Ref) (n : Int) : Except CompileError Unit × Machine :=
  match OptLevel.ofInt? n with
  | none => (.error (.invalidOptLevel n), m)
  | some .unoptimized =>
    (.ok (), (m.mapProfile unit (·.setManualLevel .unoptimized)).forget unit)
  | some level =>
    let (result, m) := m.compile unit level true (some m.globals)
    (result.map fun _ => (), m)

/-- The level at which a unit is compiled when native code is turned on. -/
def wantedLevel (unit : Ref) : OptLevel :=
  match (m.profile unit).state.level with
  | some .unoptimized | none => m.config.automaticLevel
  | some level => level

/-- Turns the use of a unit's native code on or off; it is compiled first if it
    has none to turn on. -/
def setUseNative (unit : Ref) (on : Bool) : Except CompileError Unit × Machine :=
  let turn (m : Machine) : Machine := m.mapProfile unit (·.setUseNative on)
  if on && (m.profile unit).tier != .native then
    match m.compile unit (m.wantedLevel unit) true (some m.globals) with
    | (.ok _, m) => (.ok (), turn m)
    | (.error e, m) => (.error e, m)
  else (.ok (), turn m)

/-- Brings a unit back to its first state, without native code, hotness or
    feedback. -/
def resetTier (unit : Ref) : Machine :=
  (m.mapUnit unit fun s => { profile := s.profile.reset, feedback := {} }).forget unit

/-! ## Bails -/

/-- What a bail changes: the counters, and the tier of a unit whose native code
    is of no use any more. -/
def bail (unit : Ref) (reason : BailReason) : Machine :=
  let m := m.record .bailStart
  let disabling := (m.profile unit).disables reason.isFatal m.config.maxFatalBails
  let m := m.mapProfile unit (·.recordBail reason.isFatal m.config.maxFatalBails)
  let m := m.mapStats fun s => { s with bails := s.bails.add reason }
  let m := if disabling then
      (m.forget unit).mapStats fun s => { s with disablingBails := s.disablingBails + 1 }
    else m
  m.record .bailEnd

end Machine

end TieredMachine
