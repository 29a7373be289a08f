import NovelScript.Bytes.Width

/-!
The instruction set: one byte and one mnemonic for each opcode, and the shape of the operand
that follows the byte in the code segment.
-/

namespace NovelScript

inductive Opcode where
  | jump
  | jumpIf
  | jumpUnless
  | callCounted
  | callShort
  | stop
  | load
  | store
  | loadConst
  | loadString1
  | loadString2
  | loadString4
  | push
  | pop
  | pushZero
  | pushByte
  | pushC
  | negate
  | add
  | sub
  | mul
  | div
  | mod
  | bitAnd
  | bitOr
  | bitXor
  | bitNot
  | truth
  | logicalAnd
  | logicalOr
  | logicalNot
  | less
  | lessOrEqual
  | greater
  | greaterOrEqual
  | equal
  | notEqual
  | shiftLeft
  | shiftRight
  | increment
  | decrement
  | address
  | dump
  | call
  | loadFrame
  | storeFrame
  | addressFrame
  | enterFunction
  | leaveFunction
  | leaveFunctionPopping
  deriving DecidableEq, Repr

/-- What follows an opcode byte. -/
inductive Shape where
  | bare
  | jump
  | value (width : Width)
  | string (width : Width)
  | frame (width : Width)
  /-- A function, and a stack size byte if the caller clears the stack. -/
  | call
  /-- A function and an argument count byte. -/
  | countedCall (width : Width)
  deriving DecidableEq, Repr

namespace Opcode

def all : List Opcode :=
  [.jump, .jumpIf, .jumpUnless, .callCounted, .callShort, .stop, .load, .store, .loadConst,
   .loadString1, .loadString2, .loadString4, .push, .pop, .pushZero, .pushByte, .pushC, .negate,
   .add, .sub, .mul, .div, .mod, .bitAnd, .bitOr, .bitXor, .bitNot, .truth, .logicalAnd,
   .logicalOr, .logicalNot, .less, .lessOrEqual, .greater, .greaterOrEqual, .equal, .notEqual,
   .shiftLeft, .shiftRight, .increment, .decrement, .address, .dump, .call, .loadFrame,
   .storeFrame, .addressFrame, .enterFunction, .leaveFunction, .leaveFunctionPopping]

def byte : Opcode → UInt8
  | jump => 0x00
  | jumpIf => 0x01
  | jumpUnless => 0x02
  | callCounted => 0x03
  | callShort => 0x04
  | stop => 0x05
  | load => 0x06
  | store => 0x07
  | loadConst => 0x08
  | loadString1 => 0x09
  | loadString2 => 0x0A
  | loadString4 => 0x0C
  | push => 0x0D
  | pop => 0x0E
  | pushZero => 0x0F
  | pushByte => 0x11
  | pushC => 0x12
  | negate => 0x13
  | add => 0x14
  | sub => 0x15
  | mul => 0x16
  | div => 0x17
  | mod => 0x18
  | bitAnd => 0x19
  | bitOr => 0x1A
  | bitXor => 0x1B
  | bitNot => 0x1C
  | truth => 0x1D
  | logicalAnd => 0x1E
  | logicalOr => 0x1F
  | logicalNot => 0x20
  | less => 0x21
  | lessOrEqual => 0x22
  | greater => 0x23
  | greaterOrEqual => 0x24
  | equal => 0x25
  | notEqual => 0x26
  | shiftLeft => 0x27
  | shiftRight => 0x28
  | increment => 0x29
  | decrement => 0x2A
  | address => 0x2B
  | dump => 0x2C
  | call => 0x2D
  | loadFrame => 0x2E
  | storeFrame => 0x2F
  | addressFrame => 0x30
  | enterFunction => 0x31
  | leaveFunction => 0x32
  | leaveFunctionPopping => 0x33

def mnemonic : Opcode → String
  | jump => "JUMP"
  | jumpIf => "TJUMP"
  | jumpUnless => "FJUMP"
  | callCounted => "CALL_C"
  | callShort => "CALL_CB"
  | stop => "STOP"
  | load => "LOAD"
  | store => "STORE"
  | loadConst => "LOADCONST"
  | loadString1 => "LOADSTRING1"
  | loadString2 => "LOADSTRING2"
  | loadString4 => "LOADSTRING4"
  | push => "PUSH"
  | pop => "POP"
  | pushZero => "PUSHZ"
  | pushByte => "PUSHB"
  | pushC => "PUSHC"
  | negate => "INVSIGN"
  | add => "ADD"
  | sub => "SUB"
  | mul => "MUL"
  | div => "DIV"
  | mod => "MOD"
  | bitAnd => "AND"
  | bitOr => "OR"
  | bitXor => "XOR"
  | bitNot => "NOT"
  | truth => "BOOL"
  | logicalAnd => "LAND"
  | logicalOr => "LOR"
  | logicalNot => "LNOT"
  | less => "LT"
  | lessOrEqual => "LE"
  | greater => "GT"
  | greaterOrEqual => "GE"
  | equal => "EQ"
  | notEqual => "NE"
  | shiftLeft => "LSHIFT"
  | shiftRight => "RSHIFT"
  | increment => "INC"
  | decrement => "DEC"
  | address => "ADDRESS"
  | dump => "DUMP"
  | call => "CALL"
  | loadFrame => "LOAD_FP"
  | storeFrame => "STORE_FP"
  | addressFrame => "ADDRESS_FP"
  | enterFunction => "ENTER_FUNC"
  | leaveFunction => "LEAVE_FUNC"
  | leaveFunctionPopping => "LEAVE_FUNC_STD"

/-- The bytes 0x0B and 0x10 and those above 0x33 are unassigned. -/
def ofByte? (b : UInt8) : Option Opcode := all.find? (·.byte == b)

/-- Mnemonics are in upper case. -/
def ofMnemonic? (name : String) : Option Opcode := all.find? (·.mnemonic == name)

def shape : Opcode → Shape
  | jump | jumpIf | jumpUnless => .jump
  | callCounted => .countedCall .four
  | callShort => .countedCall .one
  | call => .call
  | loadConst | push => .value .four
  | pushByte => .value .one
  | loadString1 => .string .one
  | loadString2 => .string .two
  | loadString4 => .string .four
  | enterFunction => .frame .four
  | leaveFunctionPopping => .frame .one
  | _ => .bare

def stringWidth? (op : Opcode) : Option Width :=
  match op.shape with
  | .string width => some width
  | _ => none

theorem mem_all (op : Opcode) : op ∈ all := by cases op <;> decide

theorem ofByte?_byte (op : Opcode) : ofByte? op.byte = some op := by cases op <;> rfl

theorem byte_of_ofByte? {b : UInt8} {op : Opcode} (h : ofByte? b = some op) : op.byte = b :=
  eq_of_beq (List.find?_some (p := fun op : Opcode ↦ op.byte == b) h)

theorem ofMnemonic?_mnemonic (op : Opcode) : ofMnemonic? op.mnemonic = some op := by
  have hall : ∀ op ∈ all, ofMnemonic? op.mnemonic = some op := by decide +kernel
  exact hall op (mem_all op)

end Opcode

end NovelScript
