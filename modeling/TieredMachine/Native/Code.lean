/-
  Native code.

  The native code of a unit is either its graph, run operation by operation over
  the frame, or a kernel.  A backend makes native code from a graph.
-/
import TieredMachine.Native.Kernel
import TieredMachine.Graph.Text

namespace TieredMachine

/-- What native code consists of. -/
inductive NativeCode where
  | threaded (g : Graph)
  | kernel (k : Kernel)
  deriving Inhabited

/-- Installed native code. -/
structure NativeFunction where
  name : String
  level : OptLevel
  /-- the backend that made the code -/
  backend : BackendKind
  code : NativeCode
  /-- the listing of the code when it was made; a kernel has none -/
  listing : List String
  deriving Inhabited

namespace NativeFunction

/-- The code in diagnostics. -/
def inspect (n : NativeFunction) : String :=
  s!"NativeFunction \x7b name: {Text.inspect n.name}, level: {levelLabel n.level}, " ++
    s!"backend: {n.backend.label} \x7d"
where
  /-- The level's own name. -/
  levelLabel : OptLevel → String
    | .unoptimized => "Unoptimized"
    | .o0 => "O0"
    | .o1 => "O1"
    | .o2 => "O2"

end NativeFunction

namespace BackendKind

/-- Threaded code, which exists for every graph. -/
def threadedCode (heap : Heap) (g : Graph) (level : OptLevel) : NativeFunction :=
  ⟨g.name, level, .threaded, .threaded g, g.threadedListing heap⟩

/-- A kernel, which exists for some graphs. -/
def kernelCode (g : Graph) (level : OptLevel) : Except CompileError NativeFunction := do
  return ⟨g.name, level, .cranelift, .kernel (← Kernel.compile g), []⟩

/-- The native code that a backend makes from a graph. -/
def compile (b : BackendKind) (heap : Heap) (g : Graph) (level : OptLevel) :
    Except CompileError NativeFunction :=
  match b with
  | .threaded => .ok (threadedCode heap g level)
  | .cranelift => kernelCode g level
  | .auto =>
    match kernelCode g level with
    | .error (.notCompilable _) => .ok (threadedCode heap g level)
    | other => other

end BackendKind

end TieredMachine
