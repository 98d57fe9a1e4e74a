/-
  The engine, as an embedding program sees it.

  An embedding program adds code units to a machine, binds functions over them
  to global names, runs module bodies and calls values.  Everything else that it
  may do to a machine is a function on `Machine`.

  * `newFunction`, `define`, `runModule`: functions and modules over the globals
    of the engine;
  * `Machine.newUnit`, `Machine.setGlobal`, …: units and names;
  * `Machine.currentFlags`, `Machine.graphListing?`, `Machine.nativeListing?`,
    `Machine.inspect`: what there is to know about a unit and the engine.
-/
import TieredMachine.Run.Guest
import TieredMachine.Code.Builder
import TieredMachine.Code.Listing

namespace TieredMachine

/-! ## Running -/

/-- A new function over a unit and the globals of the engine. -/
def newFunction (unit : Ref) : Exec Value := do
  let globals := (← get).globals
  alloc fun h => h.newFunction { name := (h.unit unit).name, code := unit, globals }

/-- Binds a new function over a unit to a global name. -/
def define (name : String) (unit : Ref) : Exec Value := do
  let f ← newFunction unit
  modify fun m => m.mapSpace m.globals (·.set name f)
  return f

/-- Runs a unit as the body of a module over the globals of the engine. -/
def runModule (unit : Ref) : Exec Value := do
  let m ← get
  let u := m.heap.unit unit
  let f ← newFrame u m.globals
  match ← nested ((execute .call).onNew f) with
  | .return_ v => return v
  | .yield_ _ => throw (.runtime (.moduleYielded u.name))

namespace Machine

variable (m : Machine)

/-! ## Units and names -/

/-- The machine with a new code unit from its parts, and the number of the
    unit. -/
def newUnit (parts : CodeParts) : Except CodeError (Ref × Machine) := do
  let id := m.heap.units.size
  let u ← CodeUnit.ofParts id parts
  return (id, (m.addUnit u).2)

/-- The value of a global name; builtins are not searched. -/
def global? (name : String) : Option Value := (m.heap.space m.globals).get? name

/-- The value of a built-in name. -/
def builtin? (name : String) : Option Value := (m.heap.space m.builtins).get? name

/-- The machine with a global name bound. -/
def setGlobal (name : String) (v : Value) : Machine := m.mapSpace m.globals (·.set name v)

/-- The machine with a built-in name bound. -/
def setBuiltin (name : String) (v : Value) : Machine := m.mapSpace m.builtins (·.set name v)

/-- The machine with a global name unbound. -/
def eraseGlobal (name : String) : Machine := m.mapSpace m.globals (·.erase name)

/-! ## Introspection -/

/-- The level of a unit: that of its native code or the one asked for last, the
    lowest when there was neither. -/
def level (unit : Ref) : OptLevel := (m.profile unit).state.level.getD .unoptimized

/-- The properties of a unit at present: native code may rely on bindings of
    global names. -/
def currentFlags (unit : Ref) : CodeFlags :=
  (m.heap.unit unit).flags.addIf (m.profile unit).assumesGlobals .fdoGlobals

/-- The unit in diagnostics. -/
def inspectUnit (unit : Ref) : String := (m.heap.unit unit).inspect (m.currentFlags unit)

/-- The listing of the graph of a unit's native code. -/
def graphListing? (unit : Ref) : Option (List String) :=
  (m.profile unit).state.graph.map fun g => g.listing m.heap

/-- The listing of a unit's native code; a kernel has an empty one. -/
def nativeListing? (unit : Ref) : Option (List String) :=
  (m.profile unit).state.native.map (·.listing)

/-- The entry of a unit on the list of units with native code. -/
def compiledUnit? (unit : Ref) : Option CompiledUnit := m.compiled.lookup unit

/-- The engine in diagnostics. -/
def inspect : String :=
  let compiler := s!"TieredCompiler \x7b backend: {m.config.backend.label}, " ++
    s!"compiled: {m.compiled.length} \x7d"
  s!"Engine \x7b config: {m.config.inspect}, jit_control: {m.control.label}, " ++
    s!"bail_error: {m.bailError}, tiered: {compiler} \x7d"

end Machine

end TieredMachine
