/-
  Tiers, levels and reasons.

  A code unit is in one *tier* at a time: interpreted, native, or interpreted
  for good.  Native code is made at an optimization *level* by a *backend*, and
  hands frames back to the interpreter for a *bail reason*.

  * `Tier`, `OptLevel`, `BailReason`, `Control`, `BackendKind`: the vocabulary;
  * `CompileError`: why there is no native code for a unit.
-/
import TieredMachine.Code.Word

namespace TieredMachine

/-- How a code unit is being run. -/
inductive Tier where
  /-- by the interpreter, which collects feedback -/
  | interpreted
  /-- a compilation was claimed and is not over -/
  | compiling
  /-- native code is installed -/
  | native
  /-- by the interpreter, until the unit is reset -/
  | permanentlyInterpreted
  deriving DecidableEq, Repr, Inhabited

/-- The name of the tier. -/
def Tier.name : Tier → String
  | .interpreted => "interpreted"
  | .compiling => "compiling"
  | .native => "native"
  | .permanentlyInterpreted => "permanently-interpreted"

/-- Every tier. -/
def Tier.all : List Tier := [.interpreted, .compiling, .native, .permanentlyInterpreted]

/-- How much is done to make native code fast. -/
inductive OptLevel where
  /-- there is no native code -/
  | unoptimized
  /-- plain lowering -/
  | o0
  /-- jumps are threaded and unreachable blocks dropped -/
  | o1
  /-- and code is specialized by feedback -/
  | o2
  deriving DecidableEq, Repr, Inhabited

namespace OptLevel

/-- The number of the level. -/
def toInt : OptLevel → Int
  | unoptimized => -1
  | o0 => 0
  | o1 => 1
  | o2 => 2

/-- The level with a given number. -/
def ofInt? : Int → Option OptLevel
  | -1 => some unoptimized
  | 0 => some o0
  | 1 => some o1
  | 2 => some o2
  | _ => none

/-- Whether the level includes what `l` does. -/
def atLeast (level l : OptLevel) : Bool := l.toInt ≤ level.toInt

/-- The written form of the level. -/
def text (l : OptLevel) : String := toString l.toInt

/-- The level that automatic compilation uses for a configured number: the
    number's own, or the highest when it names no native level. -/
def forAutomatic (n : Int) : OptLevel :=
  match ofInt? n with
  | some unoptimized | none => o2
  | some l => l

/-- Reading a level's number gives the level back. -/
theorem ofInt?_toInt (l : OptLevel) : ofInt? l.toInt = some l := by
  cases l <;> rfl

end OptLevel

/-- Why native code handed a frame back. -/
inductive BailReason where
  /-- a tracer was installed when the unit was entered -/
  | traceOnEntry
  /-- a tracer was found at the start of a line -/
  | lineTrace
  /-- a tracer was found at the target of a backward jump -/
  | backedgeTrace
  /-- a request was found at a safe point -/
  | requested
  /-- a branch went the way that was not expected -/
  | guardFail
  /-- something that the code was built on no longer holds -/
  | fatalGuardFail
  deriving DecidableEq, Repr, Inhabited

namespace BailReason

/-- Every reason, in a fixed order. -/
def all : List BailReason :=
  [traceOnEntry, lineTrace, backedgeTrace, requested, guardFail, fatalGuardFail]

/-- The position of the reason in `all`. -/
def index (r : BailReason) : Nat := all.idxOf r

/-- The name of the reason. -/
def name : BailReason → String
  | traceOnEntry => "trace-on-entry"
  | lineTrace => "line-trace"
  | backedgeTrace => "backedge-trace"
  | requested => "requested"
  | guardFail => "guard-fail"
  | fatalGuardFail => "fatal-guard-fail"

/-- Whether the native code is of no use any more. -/
def isFatal (r : BailReason) : Bool := r == fatalGuardFail

/-- Whether the bail may be turned into a guest exception. -/
def isGuard (r : BailReason) : Bool := r == guardFail || r == fatalGuardFail

end BailReason

/-- When units are compiled without being asked for. -/
inductive Control where
  | never
  /-- once a unit is hot -/
  | whenHot
  /-- on its first activation -/
  | always
  deriving DecidableEq, Repr, Inhabited

namespace Control

/-- The policy's own name. -/
def label : Control → String
  | never => "Never"
  | whenHot => "WhenHot"
  | always => "Always"

/-- The policy's name in a configuration. -/
def name : Control → String
  | never => "never"
  | whenHot => "whenhot"
  | always => "always"

/-- The policy with a given name in a configuration. -/
def ofName? : String → Option Control
  | "never" => some never
  | "whenhot" => some whenHot
  | "always" => some always
  | _ => none

/-- The policy that a byte stands for. -/
def ofByte : Nat → Control
  | 0 => never
  | 2 => always
  | _ => whenHot

end Control

/-- What makes native code. -/
inductive BackendKind where
  /-- threaded code over the frame, for any unit -/
  | threaded
  /-- machine code for units that only compute with integers -/
  | cranelift
  /-- machine code where possible, threaded code otherwise -/
  | auto
  deriving DecidableEq, Repr, Inhabited

namespace BackendKind

/-- The backend's own name. -/
def label : BackendKind → String
  | threaded => "Threaded"
  | cranelift => "Cranelift"
  | auto => "Auto"

/-- The backend's name in a configuration. -/
def name : BackendKind → String
  | threaded => "threaded"
  | cranelift => "cranelift"
  | auto => "auto"

/-- The backend with a given name in a configuration. -/
def ofName? : String → Option BackendKind
  | "threaded" => some threaded
  | "cranelift" => some cranelift
  | "auto" => some auto
  | _ => none

end BackendKind

/-- Why a unit has no native code. -/
inductive CompileError where
  /-- an instruction that is not lowered -/
  | unsupported (ip : Nat) (op : Opcode)
  /-- stack heights that disagree where control meets -/
  | stackMismatch (ip expected got : Nat)
  /-- block stacks that disagree where control meets -/
  | blockMismatch (ip : Nat)
  /-- control that leaves the code -/
  | badControlFlow (ip : Nat)
  /-- code that the backend does not take -/
  | notCompilable (why : String)
  /-- the unit has native code already -/
  | alreadyNative
  /-- the unit is interpreted for good -/
  | disabled
  /-- a number that names no level -/
  | invalidOptLevel (level : Int)
  deriving DecidableEq, Repr

namespace CompileError

/-- The name of the error. -/
def label : CompileError → String
  | unsupported .. => "Unsupported"
  | stackMismatch .. => "StackMismatch"
  | blockMismatch _ => "BlockMismatch"
  | badControlFlow _ => "BadControlFlow"
  | notCompilable _ => "NotCompilable"
  | alreadyNative => "AlreadyNative"
  | disabled => "Disabled"
  | invalidOptLevel _ => "InvalidOptLevel"

/-- The wording of the error. -/
def message : CompileError → String
  | unsupported ip op => s!"Unsupported opcode {op.mnemonic} at ip {ip}"
  | stackMismatch ip expected got =>
    s!"Stack depth mismatch at ip {ip}: expected {expected}, got {got}"
  | blockMismatch ip => s!"Block stack mismatch at ip {ip}"
  | badControlFlow ip => s!"Bad control flow at ip {ip}"
  | notCompilable why => s!"Not compilable: {why}"
  | alreadyNative => "Code unit already has native code"
  | disabled => "Native execution disabled for this code unit"
  | invalidOptLevel level => s!"Invalid optimization level {level} (expected -1..=2)"

/-- Whether the unit itself is why it was not lowered or not taken by the
    backend. -/
def isLoweringFailure : CompileError → Bool
  | unsupported .. | stackMismatch .. | blockMismatch _ | badControlFlow _
  | notCompilable _ => true
  | _ => false

end CompileError

end TieredMachine
