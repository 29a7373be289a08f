/-!
A script container: three tables of names, the string segment, the code segment, the message
table and the message segment.
-/

namespace NovelScript

inductive CallConvention where
  /-- The caller clears the stack. -/
  | cdecl
  /-- The callee clears the stack. -/
  | stdcall
  | other (number : Int32)
  deriving DecidableEq, Repr

structure Symbol where
  name : String
  /-- Stored as a list that ends at a pair whose first number is zero. -/
  dependencies : List (Int32 × Int32)
  kind : Int32
  unknown8 : Int32
  unknown14 : Int32
  convention : Int32
  deriving DecidableEq, Repr

def Symbol.callConvention (s : Symbol) : CallConvention :=
  if s.convention = 1 then .cdecl else if s.convention = 2 then .stdcall else .other s.convention

structure Function where
  name : String
  index : Int32
  unknown4 : Int32
  offset : Int32
  deriving DecidableEq, Repr

structure Label where
  name : String
  offset : UInt32
  deriving DecidableEq, Repr

/-- Where a message lies in the message segment. -/
structure MessageEntry where
  offset : UInt32
  length : UInt32
  deriving DecidableEq, Repr

structure Container where
  symbols : Array Symbol := #[]
  /-- The word stored after the last symbol. -/
  symbolTrailer : Int32 := 0
  functions : Array Function := #[]
  labels : Array Label := #[]
  strings : Array UInt8 := #[]
  code : Array UInt8 := #[]
  messages : Array MessageEntry := #[]
  messageData : Array UInt8 := #[]
  deriving DecidableEq, Repr

/-- The parts of a container, in the order of their bytes. -/
inductive Section where
  | symbolTable
  | functionTable
  | labelTable
  | stringSegment
  | codeSegment
  | messageTable
  | messageSegment
  deriving DecidableEq, Repr

namespace Section

def all : List Section :=
  [symbolTable, functionTable, labelTable, stringSegment, codeSegment, messageTable,
    messageSegment]

def title : Section → String
  | symbolTable => "symbol table"
  | functionTable => "function table"
  | labelTable => "label table"
  | stringSegment => "string segment"
  | codeSegment => "code segment"
  | messageTable => "message table"
  | messageSegment => "message segment"

end Section

end NovelScript
