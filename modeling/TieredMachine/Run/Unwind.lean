/-
  Unwinding of the block stack.

  Exceptions, returns, `break` and `continue` leave blocks the same way: blocks
  are popped until one takes the unwind, the value stack is cut down to that
  block's level, and control goes to its handler.  A `finally` clause finds on
  the stack what sent it there, its *payload*, and the end of the clause goes
  on from that.

  * `Pending`: an unwind under way;
  * `unwind`: the effect on a frame, and where control goes;
  * `payload`: what a `finally` clause finds, topmost value first;
  * `endFinally`: reading a payload;
  * `Flow`: how one primitive hands on control.
-/
import TieredMachine.Operation.Basic

namespace TieredMachine

/-! ## Reasons -/

/-- Why the block stack is unwound. -/
inductive UnwindReason where
  | notSet | exception | reraise | return_ | break_ | continue_ | yield_
  deriving DecidableEq, Repr, Inhabited

namespace UnwindReason

/-- Every reason. -/
def all : List UnwindReason :=
  [notSet, exception, reraise, return_, break_, continue_, yield_]

/-- The number of the reason in a payload. -/
def code : UnwindReason → Int64
  | notSet => 0x01
  | exception => 0x02
  | reraise => 0x04
  | return_ => 0x08
  | break_ => 0x10
  | continue_ => 0x20
  | yield_ => 0x40

/-- The reason with a given number. -/
def ofCode? (n : Int64) : Option UnwindReason := all.find? (·.code == n)

/-- The reason's own name. -/
def label : UnwindReason → String
  | notSet => "NotSet"
  | exception => "Exception"
  | reraise => "Reraise"
  | return_ => "Return"
  | break_ => "Break"
  | continue_ => "Continue"
  | yield_ => "Yield"

end UnwindReason

/-- An unwind under way. -/
inductive Pending where
  | exception (exc : Ref)
  | return_ (v : Value)
  | break_
  /-- to the start of a loop -/
  | continue_ (target : Nat)
  deriving DecidableEq, Repr, Inhabited

namespace Pending

/-- Why. -/
def reason : Pending → UnwindReason
  | exception _ => .exception
  | return_ _ => .return_
  | break_ => .break_
  | continue_ _ => .continue_

/-- Whether an exception is under way. -/
def isException : Pending → Bool
  | exception _ => true
  | _ => false

end Pending

/-- How control goes on after one primitive. -/
inductive Flow where
  /-- with the next primitive -/
  | next
  /-- at an instruction -/
  | jump (target : Nat)
  /-- out of the generator, which is suspended -/
  | yield_ (v : Value)
  /-- with an exception; one that is raised again is not fresh, and the frame
      is not added to its traceback -/
  | raise (exc : Ref) (fresh : Bool)
  | unwind (p : Pending)
  deriving DecidableEq, Repr, Inhabited

/-- Where an unwind ended. -/
inductive Unwound where
  /-- a block took it; control goes on at an instruction -/
  | handler (ip : Nat)
  /-- no block took it -/
  | exit (p : Pending)
  deriving DecidableEq, Repr, Inhabited

/-! ## Unwinding -/

/-- What an exception handler finds: the class, the exception and its traceback,
    the class topmost. -/
def exceptionPayload (exc : Ref) (h : Heap) : List Value × Heap :=
  let e := h.exception exc
  let (traceback, h) := h.newTraceback e.traceback
  ([.excType e.kind, .exception exc, traceback], h)

/-- What a `finally` clause finds, the topmost value first. -/
def Pending.payload (p : Pending) (h : Heap) : List Value × Heap :=
  match p with
  | .exception exc => exceptionPayload exc h
  | .return_ v => ([.int UnwindReason.return_.code, v], h)
  | .break_ => ([.int UnwindReason.break_.code], h)
  | .continue_ target => ([.int UnwindReason.continue_.code, .int (.ofNat target)], h)

/-- A frame with a payload on its stack. -/
def Frame.pushPayload (f : Frame) (payload : List Value) : Frame :=
  { f with stack := payload ++ f.stack }

/-- Pops blocks until one takes an unwind. -/
def unwindBlocks (p : Pending) : List Block → Frame → Heap → Unwound × Frame × Heap
  | [], f, h => (.exit p, { f with blocks := [] }, h)
  | b :: rest, f, h =>
    let cut := ({ f with blocks := rest }).truncate b.level
    match b.kind, p with
    | .loop, .continue_ target => (.handler target, { f with blocks := b :: rest }, h)
    | .loop, .break_ => (.handler b.handler, cut, h)
    | .loop, _ => unwindBlocks p rest cut h
    | .except, .exception exc =>
      let (payload, h) := exceptionPayload exc h
      (.handler b.handler, { cut with excInfo := some exc }.pushPayload payload, h)
    | .except, _ => unwindBlocks p rest cut h
    | .finally_, p =>
      let (payload, h) := p.payload h
      (.handler b.handler, cut.pushPayload payload, h)

/-- Unwinds the block stack of a frame. -/
def Frame.unwind (f : Frame) (p : Pending) (h : Heap) : Unwound × Frame × Heap :=
  unwindBlocks p f.blocks f h

/-- Unwinds the block stack. -/
def unwind (p : Pending) : FrameExec Unwound :=
  modifyGet fun s =>
    let (where_, frame, heap) := s.frame.unwind p s.machine.heap
    (where_, { frame, machine := { s.machine with heap } })

/-! ## The end of a `finally` clause -/

/-- Takes a payload off the stack and goes on from it. -/
def endFinally : FrameExec Flow := do
  match ← pop with
  | .none => return .next
  | .int n =>
    match UnwindReason.ofCode? n with
    | some .return_ => return .unwind (.return_ (← pop))
    | some .continue_ =>
      let v ← pop
      match v.asInt? with
      | some t =>
        if 0 ≤ t then return .unwind (.continue_ t.toInt.toNat)
        else throw (.runtime (.badContinueTarget ((← onMachine heap).repr v)))
      | none => throw (.runtime (.badContinueTarget ((← onMachine heap).repr v)))
    | some .break_ => return .unwind .break_
    | _ => throw (.runtime (.badReason n.toInt))
  | .excType _ =>
    let v ← pop
    let _ ← pop
    match v with
    | .exception exc => return .raise exc false
    | v => throw (.runtime (.badExceptionValue ((← onMachine heap).repr v)))
  | v => onMachine (raise .systemError s!"'finally' pops bad exception {(← heap).repr v}")

end TieredMachine
