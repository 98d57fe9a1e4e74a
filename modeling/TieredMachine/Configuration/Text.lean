/-
  The written form of a configuration.

  A configuration is written as a document with one key for each setting, in a
  fixed order.  A document that is read only names what it changes; keys that
  are no settings are ignored.

  * `Setting`: the settings, their keys and their values;
  * `Configuration.write`, `Configuration.read`: writing and reading.
-/
import TieredMachine.Configuration.Basic
import TieredMachine.Toml.Reader

namespace TieredMachine

/-- A setting. -/
inductive Setting where
  | hotnessThreshold | backedgeWeight | control | defaultLevel | backend | maxFatalBails
  | branchMinSamples | bailError | recursionLimit | recordEvents | eventCapacity
  deriving DecidableEq, Repr, Inhabited

namespace Setting

/-- Every setting, in the order in which they are written. -/
def all : List Setting :=
  [hotnessThreshold, backedgeWeight, control, defaultLevel, backend, maxFatalBails,
    branchMinSamples, bailError, recursionLimit, recordEvents, eventCapacity]

/-- The key of the setting. -/
def key : Setting → String
  | hotnessThreshold => "hotness_threshold"
  | backedgeWeight => "backedge_weight"
  | control => "jit_control"
  | defaultLevel => "default_opt_level"
  | backend => "backend"
  | maxFatalBails => "max_fatal_bails"
  | branchMinSamples => "branch_min_samples"
  | bailError => "bail_error"
  | recursionLimit => "recursion_limit"
  | recordEvents => "record_events"
  | eventCapacity => "event_capacity"

/-- The setting with a given key. -/
def ofKey? (s : String) : Option Setting := all.find? (·.key == s)

/-- The value of the setting. -/
def get (c : Configuration) : Setting → Toml.Value
  | hotnessThreshold => .integer c.hotnessThreshold
  | backedgeWeight => .integer c.backedgeWeight
  | control => .string c.control.name
  | defaultLevel => .integer c.defaultLevel
  | backend => .string c.backend.name
  | maxFatalBails => .integer c.maxFatalBails
  | branchMinSamples => .integer c.branchMinSamples
  | bailError => .boolean c.bailError
  | recursionLimit => .integer c.recursionLimit
  | recordEvents => .boolean c.recordEvents
  | eventCapacity => .integer c.eventCapacity

/-! ## Reading values -/

/-- An integer from 0 to below a bound. -/
def natural? (bound : Nat) : Toml.Value → Option Nat
  | .integer n => if 0 ≤ n ∧ n < bound then some n.toNat else none
  | _ => none

/-- An integer of 32 bits. -/
def level? : Toml.Value → Option Int
  | .integer n => if -(Int.pow 2 31) ≤ n ∧ n < Int.pow 2 31 then some n else none
  | _ => none

/-- A truth value. -/
def boolean? : Toml.Value → Option Bool
  | .boolean b => some b
  | _ => none

/-- A name: a text, or the only key of a table, with nothing in it. -/
def name? : Toml.Value → Option String
  | .string s => some s
  | .table [(s, .table [])] => some s
  | .table [(s, .array [])] => some s
  | _ => none

/-- The configuration with a setting changed, if the value is one of the
    setting. -/
def set? (c : Configuration) (v : Toml.Value) : Setting → Option Configuration
  | hotnessThreshold => (natural? UInt64.size v).map fun n => { c with hotnessThreshold := n }
  | backedgeWeight => (natural? UInt64.size v).map fun n => { c with backedgeWeight := n }
  | control => ((name? v).bind Control.ofName?).map fun p => { c with control := p }
  | defaultLevel => (level? v).map fun n => { c with defaultLevel := n }
  | backend => ((name? v).bind BackendKind.ofName?).map fun b => { c with backend := b }
  | maxFatalBails => (natural? UInt32.size v).map fun n => { c with maxFatalBails := n }
  | branchMinSamples => (natural? UInt64.size v).map fun n => { c with branchMinSamples := n }
  | bailError => (boolean? v).map fun b => { c with bailError := b }
  | recursionLimit => (natural? UInt64.size v).map fun n => { c with recursionLimit := n }
  | recordEvents => (boolean? v).map fun b => { c with recordEvents := b }
  | eventCapacity => (natural? UInt64.size v).map fun n => { c with eventCapacity := n }

/-- The written form of a value of a setting; there is none for an integer of
    more than 64 bits. -/
def valueText? : Toml.Value → Option String
  | .integer n => if n < Int.pow 2 63 then some (toString n) else none
  | .boolean b => some (toString b)
  | .string s => some ("\"" ++ s ++ "\"")
  | _ => none

end Setting

/-- What is wrong with a written configuration. -/
inductive ConfigurationError where
  /-- the document cannot be read -/
  | unreadable
  /-- a setting cannot be written -/
  | unwritable
  deriving DecidableEq, Repr

/-- The name of the error. -/
def ConfigurationError.label : ConfigurationError → String
  | unreadable => "Parse"
  | unwritable => "Serialize"

namespace Configuration

/-- The configuration as a document. -/
def write (c : Configuration) : Except ConfigurationError String :=
  let line (s : Setting) : Option String :=
    (Setting.valueText? (s.get c)).map fun text => s!"{s.key} = {text}\n"
  match Setting.all.mapM line with
  | some lines => .ok (String.join lines)
  | none => .error .unwritable

/-- The configuration with the settings of a document changed. -/
def change? (c : Configuration) (entries : List (String × Toml.Value)) : Option Configuration :=
  entries.foldlM (fun c p => match Setting.ofKey? p.1 with
    | some s => s.set? c p.2
    | none => some c) c

/-- The configuration that a document describes. -/
def read (text : String) : Except ConfigurationError Configuration :=
  match (Toml.read text).bind (change? {}) with
  | some c => .ok c
  | none => .error .unreadable

end Configuration

end TieredMachine
