import NovelScript.Bytes.Word
import NovelScript.Opcode
import NovelScript.Text.Lines
import NovelScript.Text.Numeral

/-!
The assembler. A line holds a mnemonic, in letters of either case, and its operands in decimal
or, after 0x, in hexadecimal. BYTE stands for a single raw byte. Lines that are blank or start
with a comment sign make no code.
-/

namespace NovelScript

inductive AssemblyError where
  | unknownMnemonic (line : Nat) (mnemonic : String)
  | wrongOperandCount (line : Nat) (mnemonic expected : String) (got : Nat)
  | badInteger (line : Nat) (token : String) (cause : Numeral.ReadError)
  | valueOutOfRange (line : Nat) (token role : String)
  deriving DecidableEq, Repr

open Numeral in
def AssemblyError.message : AssemblyError → String
  | unknownMnemonic line mnemonic =>
    "unknown mnemonic '" ++ mnemonic ++ "' on line " ++ decimal line
  | wrongOperandCount line mnemonic expected got =>
    "wrong operand count for " ++ mnemonic ++ " on line " ++ decimal line ++ ": expected " ++
      expected ++ ", got " ++ decimal got
  | badInteger line token _ =>
    "failed to parse integer '" ++ token ++ "' on line " ++ decimal line
  | valueOutOfRange line token role =>
    "value '" ++ token ++ "' on line " ++ decimal line ++ " is out of range for " ++ role

/-- A number of an operand, and what to call it when it is too large. -/
structure Field where
  width : Width
  role : String

def Field.plain : Width → Field
  | .one => ⟨.one, "a byte operand"⟩
  | .two => ⟨.two, "a 16-bit operand"⟩
  | .four => ⟨.four, "a 32-bit operand"⟩

def Shape.fields : Shape → List Field
  | .bare => []
  | .jump | .call => [.plain .four]
  | .value width | .string width | .frame width => [.plain width]
  | .countedCall width => [⟨width, "a byte function index"⟩, ⟨.one, "argc"⟩]

def Shape.optionalField? : Shape → Option Field
  | .call => some ⟨.one, "stack size"⟩
  | _ => none

namespace Assembler

variable (line : Nat)

/-- Commas after the number are dropped, also where a message shows it. -/
def integer (token : List Char) : Except AssemblyError UInt32 :=
  let number := (token.reverse.dropWhile (· == ',')).reverse
  let read :=
    match number with
    | '0' :: 'x' :: digits => Numeral.readWord .sixteen digits
    | '0' :: 'X' :: digits => Numeral.readWord .sixteen digits
    | digits => Numeral.readWord .ten digits
  read.mapError (.badInteger line (String.ofList number))

def field (f : Field) (token : List Char) : Except AssemblyError (List UInt8) := do
  let n ← integer line token
  if n.toNat < f.width.bound then return Bytes.littleEndian f.width.size n.toNat
  else throw (.valueOutOfRange line (String.ofList token) f.role)

def operand (mnemonic : String) (required : List Field) (optional? : Option Field)
    (tokens : List (List Char)) : Except AssemblyError (List UInt8) := do
  let least := required.length
  let fields := required ++ optional?.toList
  let expected := Numeral.decimal least ++
    optional?.elim "" fun _ ↦ " or " ++ Numeral.decimal (least + 1)
  if tokens.length < least ∨ fields.length < tokens.length then
    throw (.wrongOperandCount line mnemonic expected tokens.length)
  return (← (fields.zip tokens).mapM fun (f, token) ↦ field line f token).flatten

def isComment : List Char → Bool
  | '#' :: _ => true
  | '/' :: '/' :: _ => true
  | _ => false

def statement : List (List Char) → Except AssemblyError (List UInt8)
  | [] => return []
  | head :: tokens => do
    if isComment head then return []
    let mnemonic := String.ofList (head.map Char.toUpper)
    if mnemonic = "BYTE" then operand line mnemonic [⟨.one, "BYTE"⟩] none tokens
    else
      match Opcode.ofMnemonic? mnemonic with
      | none => throw (.unknownMnemonic line mnemonic)
      | some op =>
        return op.byte ::
          (← operand line mnemonic op.shape.fields op.shape.optionalField? tokens)

end Assembler

/-- The code of a source text, whose lines count from 1. -/
def assemble (source : String) : Except AssemblyError (List UInt8) := do
  let numbered := (Text.lines source.toList).zipIdx 1
  return (← numbered.mapM fun (text, line) ↦ Assembler.statement line (Text.words text)).flatten

end NovelScript
