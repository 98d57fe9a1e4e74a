/-
  Calls and runs of frames, tied together.

  A call may run a frame and the code of a frame may call.  Each takes the other
  as an argument; here both are defined by recursion on a bound of their
  nesting.  The bound that the engine starts with is out of reach of any
  program.

  * `callWithin`, `runWithin`: with at most so many of each other nested;
  * `callValue`, `execute`: a call of any value, and a run of any frame.
-/
import TieredMachine.Run.Call
import TieredMachine.Run.Frame

namespace TieredMachine

/-- Looks for a reason to leave native code at a safe point. -/
def pollNow (kind : SafePointKind) : Exec (Option BailReason) := modifyGet (·.poll kind)

mutual

/-- Calls a value, with at most `fuel` calls and runs nested in it. -/
def callWithin (fuel : Nat) (callee : Value) (args : List Value)
    (kwargs : List (String × Value)) : Exec Value :=
  match fuel with
  | 0 => throw .outOfFuel
  | fuel + 1 => callWith ⟨fuel, callWithin fuel, runWithin fuel, pollNow⟩ callee args kwargs

/-- Runs a frame, with at most `fuel` calls and runs nested in it. -/
def runWithin (fuel : Nat) (entry : Entry) : FrameExec Exit :=
  match fuel with
  | 0 => throw .outOfFuel
  | fuel + 1 => runFrame ⟨fuel, callWithin fuel, runWithin fuel, pollNow⟩ entry

end

/-- What code asks of the engine, with at most `fuel` calls and runs nested. -/
def guestWithin (fuel : Nat) : Guest := ⟨fuel, callWithin fuel, runWithin fuel, pollNow⟩

/-- A bound that no program reaches. -/
def ampleFuel : Nat := Nat.pow 2 62

/-- The engine, as running code sees it. -/
def guest : Guest := guestWithin ampleFuel

/-- Calls a value with positional and keyword arguments. -/
def callValue (callee : Value) (args : List Value) (kwargs : List (String × Value)) :
    Exec Value :=
  guest.call callee args kwargs

/-- Runs a frame to its next exit in whichever tier is in force. -/
def execute (entry : Entry) : FrameExec Exit := guest.run entry

end TieredMachine
