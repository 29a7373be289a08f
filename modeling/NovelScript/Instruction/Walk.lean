import NovelScript.Bytes.Word
import NovelScript.Container.Basic
import NovelScript.Instruction.Basic
import NovelScript.Instruction.Error
import NovelScript.Sequence.Positions

/-!
Walking the code segment from its front, one instruction after the other. The first error ends
the walk.
-/

namespace NovelScript

/-- The first symbol of each name and the first label at each offset, by their place in the
tables. -/
structure NameIndex where
  symbols : Std.TreeMap String Nat
  labels : Std.TreeMap UInt32 Nat

namespace NameIndex

def ofContainer (c : Container) : NameIndex :=
  ⟨positions (c.symbols.toList.map (·.name)), positions (c.labels.toList.map (·.offset))⟩

def symbol? (names : NameIndex) (name : String) : Option Nat := names.symbols[name]?

def label? (names : NameIndex) (offset : UInt32) : Option Nat := names.labels[offset]?

theorem symbol?_ofContainer (c : Container) (name : String) :
    (ofContainer c).symbol? name = (c.symbols.toList.map (·.name)).idxOf? name :=
  getElem?_positions _ name

theorem label?_ofContainer (c : Container) (offset : UInt32) :
    (ofContainer c).label? offset = (c.labels.toList.map (·.offset)).idxOf? offset :=
  getElem?_positions _ offset

end NameIndex

/-- All that the meaning of the code depends on, the code itself apart. -/
structure Scope where
  names : NameIndex
  conventions : Array CallConvention
  functions : Array Function
  codeSize : Nat
  stringSize : Nat

def Container.scope (c : Container) (names : NameIndex) : Scope where
  names := names
  conventions := c.symbols.map (·.callConvention)
  functions := c.functions
  codeSize := c.code.size
  stringSize := c.strings.size

/-- The instructions up to the end of the code or to the first error. -/
structure Walk where
  instructions : List Instruction
  failure? : Option DecodeError
  deriving DecidableEq, Repr

namespace Scope

variable (s : Scope) (address : UInt32) (op : Opcode)

def field (width : Width) (bytes : List UInt8) : Except DecodeError (UInt32 × List UInt8) :=
  match Bytes.split? width.size bytes with
  | some (front, rest) => .ok (Bytes.toWord front, rest)
  | none => .error (.truncated address op)

/-- Only an unconditional jump may leave the code segment without a label. -/
def jump (target : UInt32) : Except DecodeError Operand :=
  let label := s.names.label? target
  if label.isSome ∨ target.toNat < s.codeSize ∨ op = .jump then .ok (.target target label)
  else .error (.jumpTarget address op target)

/-- The index of a function is signed. -/
def function (word : UInt32) : Except DecodeError (Nat × Function) :=
  let index := word.toInt32.toInt
  match if 0 ≤ index then s.functions[index.toNat]? else none with
  | some f => .ok (index.toNat, f)
  | none => .error (.functionIndex address op index)

/-- Whether a call of a function carries a stack size, by the first symbol of its name. -/
def carriesStackSize (f : Function) : Except DecodeError Bool :=
  match s.names.symbol? f.name with
  | some i => .ok (s.conventions[i]? == some .cdecl)
  | none => .error (.unknownSymbol address f.name)

def operand (bytes : List UInt8) : Except DecodeError Operand :=
  match op.shape with
  | .bare => return .none
  | .jump => do
    let (target, _) ← field address op .four bytes
    s.jump address op target
  | .value width => return .value (← field address op width bytes).1
  | .frame width => return .frame (← field address op width bytes).1
  | .string width => do
    let (offset, _) ← field address op width bytes
    if offset.toNat < s.stringSize then return .string offset
    else throw (.stringOffset address op offset)
  | .call => do
    let (word, rest) ← field address op .four bytes
    let (index, f) ← s.function address op word
    if ← s.carriesStackSize address f then
      let (count, _) ← field address op .one rest
      return .call index (some count.toUInt8)
    else return .call index none
  | .countedCall width => do
    let (word, rest) ← field address op width bytes
    let (count, _) ← field address op .one rest
    let (index, _) ← s.function address op word
    return .call index (some count.toUInt8)

/-- The instruction with the given first byte. A byte outside the instruction set stands alone. -/
def instruction (code : UInt8) (bytes : List UInt8) : Except DecodeError Instruction :=
  match Opcode.ofByte? code with
  | some op => return ⟨address, code, ← s.operand address op bytes⟩
  | none => return ⟨address, code, .none⟩

/-- Walks on from a position in the code, where `skip` more bytes belong to an instruction already
read. -/
def walkAfter (skip position : Nat) : List UInt8 → Walk
  | [] => ⟨[], none⟩
  | code :: rest =>
    match skip with
    | skip + 1 => walkAfter skip (position + 1) rest
    | 0 =>
      match s.instruction (.ofNat position) code rest with
      | .error e => ⟨[], some e⟩
      | .ok i =>
        let later := walkAfter i.operandSize (position + 1) rest
        ⟨i :: later.instructions, later.failure?⟩

def walk (code : List UInt8) : Walk := s.walkAfter 0 0 code

end Scope

namespace Container

def walk (c : Container) (names : NameIndex) : Walk := (c.scope names).walk c.code.toList

end Container

end NovelScript
