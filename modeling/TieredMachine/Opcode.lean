/-
  The instruction set.

  An instruction is one opcode.  A *primitive* is executed by itself and takes
  at most one argument; a *superinstruction* stands for a fixed sequence of
  primitives and has exactly their arguments.  The byte of an opcode tells the
  three groups apart: primitives without an argument below `0x50`, primitives
  with one below `0xC0`, superinstructions from there on.

  * `Opcode.ofByte?` and `Opcode.toByte`: the numbering (`ofByte?_toByte`);
  * `Opcode.components`, `Opcode.primitives`: what a superinstruction stands
    for, one level down and fully expanded;
  * `Opcode.argKind`: the table, jump or count that an argument means.
-/
import TieredMachine.Operator

namespace TieredMachine

/-! ## Opcodes -/

/-- An operation of the stack machine. -/
inductive Opcode where
  | nop | popTop | rotTwo | rotThree | rotFour | dupTop | dupTopTwo | dupTopThree
  | unaryPositive | unaryNegative | unaryNot | unaryInvert
  | binaryPower | binaryMultiply | binaryTrueDivide | binaryFloorDivide | binaryModulo
  | binaryAdd | binarySubtract | binaryLshift | binaryRshift | binaryAnd | binaryXor | binaryOr
  | binarySubscr
  | inplacePower | inplaceMultiply | inplaceTrueDivide | inplaceFloorDivide | inplaceModulo
  | inplaceAdd | inplaceSubtract | inplaceLshift | inplaceRshift | inplaceAnd | inplaceXor
  | inplaceOr
  | storeSubscr | deleteSubscr | getIter | storeMap | slice0 | slice1 | slice2 | slice3
  | breakLoop | returnValue | yieldValue | popBlock | endFinally | withCleanup
  | storeSlice0 | storeSlice1 | storeSlice2 | storeSlice3
  | deleteSlice0 | deleteSlice1 | deleteSlice2 | deleteSlice3
  | unpackSequence | forIter | storeAttr | deleteAttr | storeGlobal | deleteGlobal
  | loadConst | buildTuple | buildList | buildMap | loadAttr | compareOp | jumpForward
  | popJumpIfFalse | popJumpIfTrue | jumpIfFalseOrPop | jumpIfTrueOrPop | jumpAbsolute
  | loadGlobal | continueLoop | setupLoop | setupExcept | setupFinally | loadFast
  | storeFast | deleteFast | raiseVarargs | callFunction | makeFunction | makeClosure
  | loadClosure | loadDeref | storeDeref | listAppend | buildSlice | callFunctionVar
  | callFunctionKw | callFunctionVarKw
  | loadFastLoadFast | loadFastLoadConst | loadGlobalCallFunction
  | compareOpPopJumpIfFalse | storeFastLoadFast | binaryAddStoreFast
  | loadFastLoadFastBinaryAdd | loadFastLoadConstCompareOpPopJumpIfFalse
  | inplaceAddStoreFast | loadFastInplaceAddStoreFast | loadConstReturnValue
  | popTopJumpAbsolute
  deriving DecidableEq, Repr, Inhabited

/-- What the argument of a primitive means. -/
inductive ArgKind where
  /-- there is no argument -/
  | none
  /-- a count, or two counts packed into one number -/
  | count
  /-- an index into the constants -/
  | const
  /-- an index into the names -/
  | name
  /-- an index into the local variables -/
  | «local»
  /-- an index into the cell variables followed by the free variables -/
  | free
  /-- a comparison operator -/
  | compare
  /-- a jump target, counted from the end of the instruction -/
  | relJump
  /-- a jump target -/
  | absJump
  deriving DecidableEq, Repr, Inhabited

namespace ArgKind

/-- The kind's own name. -/
def label : ArgKind → String
  | none => "None"
  | count => "Count"
  | const => "Const"
  | name => "Name"
  | «local» => "Local"
  | free => "Free"
  | compare => "Compare"
  | relJump => "RelJump"
  | absJump => "AbsJump"

end ArgKind

namespace Opcode

/-- Every opcode, primitives first. -/
def all : List Opcode :=
  [nop, popTop, rotTwo, rotThree, rotFour, dupTop, dupTopTwo, dupTopThree,
    unaryPositive, unaryNegative, unaryNot, unaryInvert,
    binaryPower, binaryMultiply, binaryTrueDivide, binaryFloorDivide, binaryModulo,
    binaryAdd, binarySubtract, binaryLshift, binaryRshift, binaryAnd, binaryXor, binaryOr,
    binarySubscr,
    inplacePower, inplaceMultiply, inplaceTrueDivide, inplaceFloorDivide, inplaceModulo,
    inplaceAdd, inplaceSubtract, inplaceLshift, inplaceRshift, inplaceAnd, inplaceXor,
    inplaceOr,
    storeSubscr, deleteSubscr, getIter, storeMap, slice0, slice1, slice2, slice3,
    breakLoop, returnValue, yieldValue, popBlock, endFinally, withCleanup,
    storeSlice0, storeSlice1, storeSlice2, storeSlice3,
    deleteSlice0, deleteSlice1, deleteSlice2, deleteSlice3,
    unpackSequence, forIter, storeAttr, deleteAttr, storeGlobal, deleteGlobal,
    loadConst, buildTuple, buildList, buildMap, loadAttr, compareOp, jumpForward,
    popJumpIfFalse, popJumpIfTrue, jumpIfFalseOrPop, jumpIfTrueOrPop, jumpAbsolute,
    loadGlobal, continueLoop, setupLoop, setupExcept, setupFinally, loadFast,
    storeFast, deleteFast, raiseVarargs, callFunction, makeFunction, makeClosure,
    loadClosure, loadDeref, storeDeref, listAppend, buildSlice, callFunctionVar,
    callFunctionKw, callFunctionVarKw,
    loadFastLoadFast, loadFastLoadConst, loadGlobalCallFunction,
    compareOpPopJumpIfFalse, storeFastLoadFast, binaryAddStoreFast,
    loadFastLoadFastBinaryAdd, loadFastLoadConstCompareOpPopJumpIfFalse,
    inplaceAddStoreFast, loadFastInplaceAddStoreFast, loadConstReturnValue,
    popTopJumpAbsolute]

/-- The byte that stands for an opcode. -/
def toByte : Opcode → Nat
  | nop => 0x00
  | popTop => 0x01
  | rotTwo => 0x02
  | rotThree => 0x03
  | rotFour => 0x04
  | dupTop => 0x05
  | dupTopTwo => 0x06
  | dupTopThree => 0x07
  | unaryPositive => 0x10
  | unaryNegative => 0x11
  | unaryNot => 0x12
  | unaryInvert => 0x13
  | binaryPower => 0x18
  | binaryMultiply => 0x19
  | binaryTrueDivide => 0x1A
  | binaryFloorDivide => 0x1B
  | binaryModulo => 0x1C
  | binaryAdd => 0x1D
  | binarySubtract => 0x1E
  | binaryLshift => 0x1F
  | binaryRshift => 0x20
  | binaryAnd => 0x21
  | binaryXor => 0x22
  | binaryOr => 0x23
  | binarySubscr => 0x24
  | inplacePower => 0x28
  | inplaceMultiply => 0x29
  | inplaceTrueDivide => 0x2A
  | inplaceFloorDivide => 0x2B
  | inplaceModulo => 0x2C
  | inplaceAdd => 0x2D
  | inplaceSubtract => 0x2E
  | inplaceLshift => 0x2F
  | inplaceRshift => 0x30
  | inplaceAnd => 0x31
  | inplaceXor => 0x32
  | inplaceOr => 0x33
  | storeSubscr => 0x38
  | deleteSubscr => 0x39
  | getIter => 0x3A
  | storeMap => 0x3B
  | slice0 => 0x3C
  | slice1 => 0x3D
  | slice2 => 0x3E
  | slice3 => 0x3F
  | breakLoop => 0x40
  | returnValue => 0x41
  | yieldValue => 0x42
  | popBlock => 0x43
  | endFinally => 0x44
  | withCleanup => 0x45
  | storeSlice0 => 0x48
  | storeSlice1 => 0x49
  | storeSlice2 => 0x4A
  | storeSlice3 => 0x4B
  | deleteSlice0 => 0x4C
  | deleteSlice1 => 0x4D
  | deleteSlice2 => 0x4E
  | deleteSlice3 => 0x4F
  | unpackSequence => 0x50
  | forIter => 0x51
  | storeAttr => 0x52
  | deleteAttr => 0x53
  | storeGlobal => 0x54
  | deleteGlobal => 0x55
  | loadConst => 0x56
  | buildTuple => 0x57
  | buildList => 0x58
  | buildMap => 0x59
  | loadAttr => 0x5A
  | compareOp => 0x5B
  | jumpForward => 0x5C
  | popJumpIfFalse => 0x5D
  | popJumpIfTrue => 0x5E
  | jumpIfFalseOrPop => 0x5F
  | jumpIfTrueOrPop => 0x60
  | jumpAbsolute => 0x61
  | loadGlobal => 0x62
  | continueLoop => 0x63
  | setupLoop => 0x64
  | setupExcept => 0x65
  | setupFinally => 0x66
  | loadFast => 0x67
  | storeFast => 0x68
  | deleteFast => 0x69
  | raiseVarargs => 0x6A
  | callFunction => 0x6B
  | makeFunction => 0x6C
  | makeClosure => 0x6D
  | loadClosure => 0x6E
  | loadDeref => 0x6F
  | storeDeref => 0x70
  | listAppend => 0x71
  | buildSlice => 0x72
  | callFunctionVar => 0x73
  | callFunctionKw => 0x74
  | callFunctionVarKw => 0x75
  | loadFastLoadFast => 0xC0
  | loadFastLoadConst => 0xC1
  | loadGlobalCallFunction => 0xC2
  | compareOpPopJumpIfFalse => 0xC3
  | storeFastLoadFast => 0xC4
  | binaryAddStoreFast => 0xC5
  | loadFastLoadFastBinaryAdd => 0xC6
  | loadFastLoadConstCompareOpPopJumpIfFalse => 0xC7
  | inplaceAddStoreFast => 0xC8
  | loadFastInplaceAddStoreFast => 0xC9
  | loadConstReturnValue => 0xCA
  | popTopJumpAbsolute => 0xCB

/-- The opcode that a byte stands for. -/
def ofByte? (b : Nat) : Option Opcode :=
  match b with
  | 0x00 => some nop
  | 0x01 => some popTop
  | 0x02 => some rotTwo
  | 0x03 => some rotThree
  | 0x04 => some rotFour
  | 0x05 => some dupTop
  | 0x06 => some dupTopTwo
  | 0x07 => some dupTopThree
  | 0x10 => some unaryPositive
  | 0x11 => some unaryNegative
  | 0x12 => some unaryNot
  | 0x13 => some unaryInvert
  | 0x18 => some binaryPower
  | 0x19 => some binaryMultiply
  | 0x1A => some binaryTrueDivide
  | 0x1B => some binaryFloorDivide
  | 0x1C => some binaryModulo
  | 0x1D => some binaryAdd
  | 0x1E => some binarySubtract
  | 0x1F => some binaryLshift
  | 0x20 => some binaryRshift
  | 0x21 => some binaryAnd
  | 0x22 => some binaryXor
  | 0x23 => some binaryOr
  | 0x24 => some binarySubscr
  | 0x28 => some inplacePower
  | 0x29 => some inplaceMultiply
  | 0x2A => some inplaceTrueDivide
  | 0x2B => some inplaceFloorDivide
  | 0x2C => some inplaceModulo
  | 0x2D => some inplaceAdd
  | 0x2E => some inplaceSubtract
  | 0x2F => some inplaceLshift
  | 0x30 => some inplaceRshift
  | 0x31 => some inplaceAnd
  | 0x32 => some inplaceXor
  | 0x33 => some inplaceOr
  | 0x38 => some storeSubscr
  | 0x39 => some deleteSubscr
  | 0x3A => some getIter
  | 0x3B => some storeMap
  | 0x3C => some slice0
  | 0x3D => some slice1
  | 0x3E => some slice2
  | 0x3F => some slice3
  | 0x40 => some breakLoop
  | 0x41 => some returnValue
  | 0x42 => some yieldValue
  | 0x43 => some popBlock
  | 0x44 => some endFinally
  | 0x45 => some withCleanup
  | 0x48 => some storeSlice0
  | 0x49 => some storeSlice1
  | 0x4A => some storeSlice2
  | 0x4B => some storeSlice3
  | 0x4C => some deleteSlice0
  | 0x4D => some deleteSlice1
  | 0x4E => some deleteSlice2
  | 0x4F => some deleteSlice3
  | 0x50 => some unpackSequence
  | 0x51 => some forIter
  | 0x52 => some storeAttr
  | 0x53 => some deleteAttr
  | 0x54 => some storeGlobal
  | 0x55 => some deleteGlobal
  | 0x56 => some loadConst
  | 0x57 => some buildTuple
  | 0x58 => some buildList
  | 0x59 => some buildMap
  | 0x5A => some loadAttr
  | 0x5B => some compareOp
  | 0x5C => some jumpForward
  | 0x5D => some popJumpIfFalse
  | 0x5E => some popJumpIfTrue
  | 0x5F => some jumpIfFalseOrPop
  | 0x60 => some jumpIfTrueOrPop
  | 0x61 => some jumpAbsolute
  | 0x62 => some loadGlobal
  | 0x63 => some continueLoop
  | 0x64 => some setupLoop
  | 0x65 => some setupExcept
  | 0x66 => some setupFinally
  | 0x67 => some loadFast
  | 0x68 => some storeFast
  | 0x69 => some deleteFast
  | 0x6A => some raiseVarargs
  | 0x6B => some callFunction
  | 0x6C => some makeFunction
  | 0x6D => some makeClosure
  | 0x6E => some loadClosure
  | 0x6F => some loadDeref
  | 0x70 => some storeDeref
  | 0x71 => some listAppend
  | 0x72 => some buildSlice
  | 0x73 => some callFunctionVar
  | 0x74 => some callFunctionKw
  | 0x75 => some callFunctionVarKw
  | 0xC0 => some loadFastLoadFast
  | 0xC1 => some loadFastLoadConst
  | 0xC2 => some loadGlobalCallFunction
  | 0xC3 => some compareOpPopJumpIfFalse
  | 0xC4 => some storeFastLoadFast
  | 0xC5 => some binaryAddStoreFast
  | 0xC6 => some loadFastLoadFastBinaryAdd
  | 0xC7 => some loadFastLoadConstCompareOpPopJumpIfFalse
  | 0xC8 => some inplaceAddStoreFast
  | 0xC9 => some loadFastInplaceAddStoreFast
  | 0xCA => some loadConstReturnValue
  | 0xCB => some popTopJumpAbsolute
  | _ => none

/-- Reading an opcode's byte gives the opcode back. -/
theorem ofByte?_toByte (op : Opcode) : ofByte? op.toByte = some op := by
  cases op <;> rfl

/-- Whether the opcode stands for a sequence of primitives. -/
def isSuper (op : Opcode) : Bool := 0xC0 ≤ op.toByte

/-- Whether the primitive is followed by an argument; a superinstruction has
    none of its own. -/
def hasArg (op : Opcode) : Bool := 0x50 ≤ op.toByte && op.toByte < 0xC0

/-- What the argument of a primitive means. -/
def argKind : Opcode → ArgKind
  | loadConst => .const
  | storeAttr | deleteAttr | storeGlobal | deleteGlobal | loadAttr | loadGlobal => .name
  | loadFast | storeFast | deleteFast => .local
  | loadClosure | loadDeref | storeDeref => .free
  | compareOp => .compare
  | forIter | jumpForward | setupLoop | setupExcept | setupFinally => .relJump
  | popJumpIfFalse | popJumpIfTrue | jumpIfFalseOrPop | jumpIfTrueOrPop | jumpAbsolute
  | continueLoop => .absJump
  | op => if op.hasArg then .count else .none

/-- The parts of a superinstruction, which may be superinstructions again; a
    primitive has none. -/
def components : Opcode → List Opcode
  | loadFastLoadFast => [loadFast, loadFast]
  | loadFastLoadConst => [loadFast, loadConst]
  | loadGlobalCallFunction => [loadGlobal, callFunction]
  | compareOpPopJumpIfFalse => [compareOp, popJumpIfFalse]
  | storeFastLoadFast => [storeFast, loadFast]
  | binaryAddStoreFast => [binaryAdd, storeFast]
  | loadFastLoadFastBinaryAdd => [loadFastLoadFast, binaryAdd]
  | loadFastLoadConstCompareOpPopJumpIfFalse => [loadFastLoadConst, compareOpPopJumpIfFalse]
  | inplaceAddStoreFast => [inplaceAdd, storeFast]
  | loadFastInplaceAddStoreFast => [loadFast, inplaceAddStoreFast]
  | loadConstReturnValue => [loadConst, returnValue]
  | popTopJumpAbsolute => [popTop, jumpAbsolute]
  | _ => []

/-- The primitives that executing the opcode runs, in order; a primitive runs
    itself. -/
def primitives : Opcode → List Opcode
  | loadFastLoadFast => [loadFast, loadFast]
  | loadFastLoadConst => [loadFast, loadConst]
  | loadGlobalCallFunction => [loadGlobal, callFunction]
  | compareOpPopJumpIfFalse => [compareOp, popJumpIfFalse]
  | storeFastLoadFast => [storeFast, loadFast]
  | binaryAddStoreFast => [binaryAdd, storeFast]
  | loadFastLoadFastBinaryAdd => [loadFast, loadFast, binaryAdd]
  | loadFastLoadConstCompareOpPopJumpIfFalse => [loadFast, loadConst, compareOp, popJumpIfFalse]
  | inplaceAddStoreFast => [inplaceAdd, storeFast]
  | loadFastInplaceAddStoreFast => [loadFast, inplaceAdd, storeFast]
  | loadConstReturnValue => [loadConst, returnValue]
  | popTopJumpAbsolute => [popTop, jumpAbsolute]
  | op => [op]

/-- The number of arguments of an instruction. -/
def argCount (op : Opcode) : Nat := (op.primitives.filter hasArg).length

/-- The length of an instruction in words: its opcode and its arguments. -/
def length (op : Opcode) : Nat := 1 + op.argCount

/-- The superinstructions, in the order of `all`. -/
def supers : List Opcode := all.filter isSuper

/-! ## Classes of opcodes -/

/-- Whether the primitive pushes an entry on the block stack. -/
def isBlockSetup : Opcode → Bool
  | setupLoop | setupExcept | setupFinally => true
  | _ => false

/-- Whether the primitive can send control somewhere other than the next
    instruction: jumps, unwinding, suspension, block setup.  Only the last
    primitive of a superinstruction may be one of these. -/
def isControlTransfer : Opcode → Bool
  | breakLoop | returnValue | yieldValue | endFinally | raiseVarargs | forIter | jumpForward
  | popJumpIfFalse | popJumpIfTrue | jumpIfFalseOrPop | jumpIfTrueOrPop | jumpAbsolute
  | continueLoop | setupLoop | setupExcept | setupFinally => true
  | _ => false

/-- Whether the opcode jumps. -/
def isJump (op : Opcode) : Bool :=
  (op.argKind == .relJump || op.argKind == .absJump) && !op.isBlockSetup && op != continueLoop

/-- Whether the opcode is a conditional branch. -/
def isConditionalJump : Opcode → Bool
  | popJumpIfFalse | popJumpIfTrue | jumpIfFalseOrPop | jumpIfTrueOrPop => true
  | _ => false

/-- The binary operator that the opcode computes. -/
def binaryOp? : Opcode → Option BinaryOp
  | binaryPower => some .pow
  | binaryMultiply => some .mul
  | binaryTrueDivide => some .trueDiv
  | binaryFloorDivide => some .floorDiv
  | binaryModulo => some .mod
  | binaryAdd => some .add
  | binarySubtract => some .sub
  | binaryLshift => some .lshift
  | binaryRshift => some .rshift
  | binaryAnd => some .and
  | binaryXor => some .xor
  | binaryOr => some .or
  | binarySubscr => some .getItem
  | _ => none

/-- The operator that the opcode computes as an augmented assignment. -/
def inplaceOp? : Opcode → Option BinaryOp
  | inplacePower => some .pow
  | inplaceMultiply => some .mul
  | inplaceTrueDivide => some .trueDiv
  | inplaceFloorDivide => some .floorDiv
  | inplaceModulo => some .mod
  | inplaceAdd => some .add
  | inplaceSubtract => some .sub
  | inplaceLshift => some .lshift
  | inplaceRshift => some .rshift
  | inplaceAnd => some .and
  | inplaceXor => some .xor
  | inplaceOr => some .or
  | _ => none

/-- The operator of a binary or augmented instruction. -/
def operator? (op : Opcode) : Option BinaryOp := op.binaryOp? <|> op.inplaceOp?

/-- The unary operator that the opcode computes. -/
def unaryOp? : Opcode → Option UnaryOp
  | unaryPositive => some .pos
  | unaryNegative => some .neg
  | unaryNot => some .not
  | unaryInvert => some .invert
  | _ => none

/-- Whether a slice instruction takes its lower and its upper bound from the
    stack. -/
def sliceBounds? : Opcode → Option (Bool × Bool)
  | slice0 | storeSlice0 | deleteSlice0 => some (false, false)
  | slice1 | storeSlice1 | deleteSlice1 => some (true, false)
  | slice2 | storeSlice2 | deleteSlice2 => some (false, true)
  | slice3 | storeSlice3 | deleteSlice3 => some (true, true)
  | _ => none

/-- Whether a call instruction unpacks a sequence and a mapping from the top of
    the stack. -/
def callExtras? : Opcode → Option (Bool × Bool)
  | callFunction => some (false, false)
  | callFunctionVar => some (true, false)
  | callFunctionKw => some (false, true)
  | callFunctionVarKw => some (true, true)
  | _ => none

/-! ## Mnemonics -/

/-- The opcode's name in listings and messages. -/
def mnemonic : Opcode → String
  | nop => "NOP"
  | popTop => "POP_TOP"
  | rotTwo => "ROT_TWO"
  | rotThree => "ROT_THREE"
  | rotFour => "ROT_FOUR"
  | dupTop => "DUP_TOP"
  | dupTopTwo => "DUP_TOP_TWO"
  | dupTopThree => "DUP_TOP_THREE"
  | unaryPositive => "UNARY_POSITIVE"
  | unaryNegative => "UNARY_NEGATIVE"
  | unaryNot => "UNARY_NOT"
  | unaryInvert => "UNARY_INVERT"
  | binaryPower => "BINARY_POWER"
  | binaryMultiply => "BINARY_MULTIPLY"
  | binaryTrueDivide => "BINARY_TRUE_DIVIDE"
  | binaryFloorDivide => "BINARY_FLOOR_DIVIDE"
  | binaryModulo => "BINARY_MODULO"
  | binaryAdd => "BINARY_ADD"
  | binarySubtract => "BINARY_SUBTRACT"
  | binaryLshift => "BINARY_LSHIFT"
  | binaryRshift => "BINARY_RSHIFT"
  | binaryAnd => "BINARY_AND"
  | binaryXor => "BINARY_XOR"
  | binaryOr => "BINARY_OR"
  | binarySubscr => "BINARY_SUBSCR"
  | inplacePower => "INPLACE_POWER"
  | inplaceMultiply => "INPLACE_MULTIPLY"
  | inplaceTrueDivide => "INPLACE_TRUE_DIVIDE"
  | inplaceFloorDivide => "INPLACE_FLOOR_DIVIDE"
  | inplaceModulo => "INPLACE_MODULO"
  | inplaceAdd => "INPLACE_ADD"
  | inplaceSubtract => "INPLACE_SUBTRACT"
  | inplaceLshift => "INPLACE_LSHIFT"
  | inplaceRshift => "INPLACE_RSHIFT"
  | inplaceAnd => "INPLACE_AND"
  | inplaceXor => "INPLACE_XOR"
  | inplaceOr => "INPLACE_OR"
  | storeSubscr => "STORE_SUBSCR"
  | deleteSubscr => "DELETE_SUBSCR"
  | getIter => "GET_ITER"
  | storeMap => "STORE_MAP"
  | slice0 => "SLICE+0"
  | slice1 => "SLICE+1"
  | slice2 => "SLICE+2"
  | slice3 => "SLICE+3"
  | breakLoop => "BREAK_LOOP"
  | returnValue => "RETURN_VALUE"
  | yieldValue => "YIELD_VALUE"
  | popBlock => "POP_BLOCK"
  | endFinally => "END_FINALLY"
  | withCleanup => "WITH_CLEANUP"
  | storeSlice0 => "STORE_SLICE+0"
  | storeSlice1 => "STORE_SLICE+1"
  | storeSlice2 => "STORE_SLICE+2"
  | storeSlice3 => "STORE_SLICE+3"
  | deleteSlice0 => "DELETE_SLICE+0"
  | deleteSlice1 => "DELETE_SLICE+1"
  | deleteSlice2 => "DELETE_SLICE+2"
  | deleteSlice3 => "DELETE_SLICE+3"
  | unpackSequence => "UNPACK_SEQUENCE"
  | forIter => "FOR_ITER"
  | storeAttr => "STORE_ATTR"
  | deleteAttr => "DELETE_ATTR"
  | storeGlobal => "STORE_GLOBAL"
  | deleteGlobal => "DELETE_GLOBAL"
  | loadConst => "LOAD_CONST"
  | buildTuple => "BUILD_TUPLE"
  | buildList => "BUILD_LIST"
  | buildMap => "BUILD_MAP"
  | loadAttr => "LOAD_ATTR"
  | compareOp => "COMPARE_OP"
  | jumpForward => "JUMP_FORWARD"
  | popJumpIfFalse => "POP_JUMP_IF_FALSE"
  | popJumpIfTrue => "POP_JUMP_IF_TRUE"
  | jumpIfFalseOrPop => "JUMP_IF_FALSE_OR_POP"
  | jumpIfTrueOrPop => "JUMP_IF_TRUE_OR_POP"
  | jumpAbsolute => "JUMP_ABSOLUTE"
  | loadGlobal => "LOAD_GLOBAL"
  | continueLoop => "CONTINUE_LOOP"
  | setupLoop => "SETUP_LOOP"
  | setupExcept => "SETUP_EXCEPT"
  | setupFinally => "SETUP_FINALLY"
  | loadFast => "LOAD_FAST"
  | storeFast => "STORE_FAST"
  | deleteFast => "DELETE_FAST"
  | raiseVarargs => "RAISE_VARARGS"
  | callFunction => "CALL_FUNCTION"
  | makeFunction => "MAKE_FUNCTION"
  | makeClosure => "MAKE_CLOSURE"
  | loadClosure => "LOAD_CLOSURE"
  | loadDeref => "LOAD_DEREF"
  | storeDeref => "STORE_DEREF"
  | listAppend => "LIST_APPEND"
  | buildSlice => "BUILD_SLICE"
  | callFunctionVar => "CALL_FUNCTION_VAR"
  | callFunctionKw => "CALL_FUNCTION_KW"
  | callFunctionVarKw => "CALL_FUNCTION_VAR_KW"
  | loadFastLoadFast => "LOAD_FAST__LOAD_FAST"
  | loadFastLoadConst => "LOAD_FAST__LOAD_CONST"
  | loadGlobalCallFunction => "LOAD_GLOBAL__CALL_FUNCTION"
  | compareOpPopJumpIfFalse => "COMPARE_OP__POP_JUMP_IF_FALSE"
  | storeFastLoadFast => "STORE_FAST__LOAD_FAST"
  | binaryAddStoreFast => "BINARY_ADD__STORE_FAST"
  | loadFastLoadFastBinaryAdd => "LOAD_FAST__LOAD_FAST__BINARY_ADD"
  | loadFastLoadConstCompareOpPopJumpIfFalse => "LOAD_FAST__LOAD_CONST__COMPARE_OP__POP_JUMP_IF_FALSE"
  | inplaceAddStoreFast => "INPLACE_ADD__STORE_FAST"
  | loadFastInplaceAddStoreFast => "LOAD_FAST__INPLACE_ADD__STORE_FAST"
  | loadConstReturnValue => "LOAD_CONST__RETURN_VALUE"
  | popTopJumpAbsolute => "POP_TOP__JUMP_ABSOLUTE"

/-- The opcode with a given mnemonic. -/
def ofMnemonic? (s : String) : Option Opcode := all.find? (·.mnemonic == s)

end Opcode

end TieredMachine
