import NovelScript.Opcode
import NovelScript.Text.Numeral

/-!
Decoded instructions, and their form as a line of assembler source.
-/

namespace NovelScript

inductive Operand where
  | none
  /-- The label is the index of the first label at the target. -/
  | target (target : UInt32) (label : Option Nat)
  /-- The count is the argument count or the stack size, whichever the opcode carries. -/
  | call (function : Nat) (count : Option UInt8)
  | value (value : UInt32)
  | string (offset : UInt32)
  | frame (size : UInt32)
  deriving DecidableEq, Repr

structure Instruction where
  /-- The position of the first byte as a 32-bit word, which wraps behind 4 GiB of code. -/
  address : UInt32
  code : UInt8
  operand : Operand
  deriving DecidableEq, Repr

def Shape.operandSize : Shape → Operand → Nat
  | .bare, _ => 0
  | .jump, _ => 4
  | .value width, _ => width.size
  | .string width, _ => width.size
  | .frame width, _ => width.size
  | .call, .call _ (some _) => 5
  | .call, _ => 4
  | .countedCall width, _ => width.size + 1

/-- The numbers that spell an operand in assembler source. -/
def Operand.arguments : Operand → List Nat
  | .none => []
  | .target address _ => [address.toNat]
  | .call index count => index :: (count.map UInt8.toNat).toList
  | .value word => [word.toNat]
  | .string offset => [offset.toNat]
  | .frame size => [size.toNat]

namespace Instruction

variable (i : Instruction)

/-- A byte outside the instruction set has none. -/
def opcode? : Option Opcode := Opcode.ofByte? i.code

def operandSize : Nat := i.opcode?.elim 0 fun op ↦ op.shape.operandSize i.operand

def size : Nat := i.operandSize + 1

def source : String :=
  match i.opcode? with
  | some op =>
    " ".intercalate (op.mnemonic :: i.operand.arguments.map Numeral.decimal)
  | none => "BYTE " ++ Numeral.decimal i.code.toNat

end Instruction

end NovelScript
