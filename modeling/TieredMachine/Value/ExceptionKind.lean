/-
  The exception classes of the guest language.

  The classes form a fixed tree.  Each class is given by its `lineage`, the path
  from itself to the root; the parent and the subclass relation are read off
  it.
-/

namespace TieredMachine

/-- An exception class. -/
inductive ExceptionKind where
  | baseException | exception | stopIteration | generatorExit | arithmeticError
  | zeroDivisionError | overflowError | lookupError | indexError | keyError | nameError
  | unboundLocalError | typeError | valueError | attributeError | runtimeError | assertionError
  | systemError
  deriving DecidableEq, Repr, Inhabited, Hashable

namespace ExceptionKind

/-- Every exception class, in a fixed order. -/
def all : List ExceptionKind :=
  [baseException, exception, stopIteration, generatorExit, arithmeticError, zeroDivisionError,
    overflowError, lookupError, indexError, keyError, nameError, unboundLocalError, typeError,
    valueError, attributeError, runtimeError, assertionError, systemError]

/-- The name of the class. -/
def name : ExceptionKind → String
  | baseException => "BaseException"
  | exception => "Exception"
  | stopIteration => "StopIteration"
  | generatorExit => "GeneratorExit"
  | arithmeticError => "ArithmeticError"
  | zeroDivisionError => "ZeroDivisionError"
  | overflowError => "OverflowError"
  | lookupError => "LookupError"
  | indexError => "IndexError"
  | keyError => "KeyError"
  | nameError => "NameError"
  | unboundLocalError => "UnboundLocalError"
  | typeError => "TypeError"
  | valueError => "ValueError"
  | attributeError => "AttributeError"
  | runtimeError => "RuntimeError"
  | assertionError => "AssertionError"
  | systemError => "SystemError"

/-- The class with a given name. -/
def ofName? (s : String) : Option ExceptionKind := all.find? (·.name == s)

/-- The position of the class in `all`. -/
def index (k : ExceptionKind) : Nat := all.idxOf k

/-- The class itself, its base class, and so on up to the root. -/
def lineage : ExceptionKind → List ExceptionKind
  | baseException => [baseException]
  | generatorExit => [generatorExit, baseException]
  | exception => [exception, baseException]
  | zeroDivisionError => [zeroDivisionError, arithmeticError, exception, baseException]
  | overflowError => [overflowError, arithmeticError, exception, baseException]
  | indexError => [indexError, lookupError, exception, baseException]
  | keyError => [keyError, lookupError, exception, baseException]
  | unboundLocalError => [unboundLocalError, nameError, exception, baseException]
  | k => [k, exception, baseException]

/-- The direct base class; the root has none. -/
def parent? (k : ExceptionKind) : Option ExceptionKind := k.lineage[1]?

/-- Whether `k` is `base` or derives from it. -/
def isSubclass (k base : ExceptionKind) : Bool := k.lineage.contains base

/-- The lineage of a base class ends the lineage of the class. -/
theorem lineage_eq (k : ExceptionKind) :
    k.lineage = k :: (k.parent?.elim [] lineage) := by
  cases k <;> rfl

end ExceptionKind

end TieredMachine
