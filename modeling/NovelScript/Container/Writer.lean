import NovelScript.Container.Reader

/-!
Writing a container. Strings are always written wide. In a limited space a container is written
piece by piece, and a piece that does not fit is reported with the section it is in.
-/

namespace NovelScript

abbrev Encoding := Except FormatError (List UInt8)

namespace Section

variable (within : Section)

def count (what : String) (n : Nat) : Encoding :=
  if n < UInt32.size then .ok (Bytes.ofWord (UInt32.ofNat n)) else .error (.tooLarge within what n)

def int (n : Int32) : List UInt8 := Bytes.ofWord n.toUInt32

def string (text : String) : Encoding :=
  let payload := Utf16.toBytes text
  if payload.length + 2 < Source.wideFlag then
    .ok (Bytes.ofWord (UInt32.ofNat (payload.length + 2 + Source.wideFlag)) ++ payload ++ [0, 0])
  else if payload.length + 2 < UInt32.size then
    .error (.tooLarge within "string length" payload.length)
  else .error (.tooLarge within "string length" (payload.length + 2))

def segment (bytes : List UInt8) : Encoding :=
  return (← within.count "segment size" bytes.length) ++ bytes

def table {α : Type} (what : String) (item : α → Encoding) (items : List α) : Encoding := do
  let size ← within.count what items.length
  return size ++ (← items.mapM item).flatten

def symbol (s : Symbol) : Encoding := do
  let name ← within.string s.name
  return name ++ s.dependencies.flatMap (fun (a, b) ↦ int a ++ int b) ++ int 0 ++
    int s.kind ++ int s.unknown8 ++ int s.unknown14 ++ int s.convention

def function (f : Function) : Encoding :=
  return (← within.string f.name) ++ int f.index ++ int f.unknown4 ++ int f.offset

def label (l : Label) : Encoding :=
  return (← within.string l.name) ++ Bytes.ofWord l.offset

def messageEntry (m : MessageEntry) : Encoding :=
  return Bytes.ofWord m.offset ++ Bytes.ofWord m.length

end Section

/-- Writes into a limited space. The state is how much of it is left. -/
abbrev SpaceWriter := StateT Nat (Except FormatError) Unit

namespace Section

variable (within : Section)

def put (bytes : List UInt8) : SpaceWriter := fun left ↦
  if bytes.length ≤ left then .ok ((), left - bytes.length) else .error (.write within)

def putInt (n : Int32) : SpaceWriter := within.put (int n)

def putCount (what : String) (n : Nat) : SpaceWriter := do
  within.put (← within.count what n)

/-- A string that is too long for its field is found before any of it is written. -/
def putString (text : String) : SpaceWriter := do
  let _ ← within.string text
  let payload := Utf16.toBytes text
  within.put (Bytes.ofWord (UInt32.ofNat (payload.length + 2 + Source.wideFlag)))
  within.put payload
  within.put [0, 0]

def putSegment (bytes : List UInt8) : SpaceWriter := do
  within.putCount "segment size" bytes.length
  within.put bytes

def putTable {α : Type} (what : String) (item : α → SpaceWriter) (items : List α) :
    SpaceWriter := do
  within.putCount what items.length
  items.forM item

def putDependencies (pairs : List (Int32 × Int32)) : SpaceWriter := do
  pairs.forM fun (a, b) ↦ do
    within.putInt a
    within.putInt b
  within.putInt 0

def putSymbol (s : Symbol) : SpaceWriter := do
  within.putString s.name
  within.putDependencies s.dependencies
  within.putInt s.kind
  within.putInt s.unknown8
  within.putInt s.unknown14
  within.putInt s.convention

def putFunction (f : Function) : SpaceWriter := do
  within.putString f.name
  within.putInt f.index
  within.putInt f.unknown4
  within.putInt f.offset

def putLabel (l : Label) : SpaceWriter := do
  within.putString l.name
  within.put (Bytes.ofWord l.offset)

def putMessageEntry (m : MessageEntry) : SpaceWriter := do
  within.put (Bytes.ofWord m.offset)
  within.put (Bytes.ofWord m.length)

end Section

namespace Container

def sectionBytes (c : Container) (within : Section) : Encoding :=
  match within with
  | .symbolTable =>
    return (← within.table "symbol count" within.symbol c.symbols.toList) ++
      Section.int c.symbolTrailer
  | .functionTable => within.table "function count" within.function c.functions.toList
  | .labelTable => within.table "label count" within.label c.labels.toList
  | .stringSegment => within.segment c.strings.toList
  | .codeSegment => within.segment c.code.toList
  | .messageTable => within.table "message count" Section.messageEntry c.messages.toList
  | .messageSegment => within.segment c.messageData.toList

def toBytes (c : Container) : Encoding :=
  return (← Section.all.mapM c.sectionBytes).flatten

def putSection (c : Container) (within : Section) : SpaceWriter :=
  match within with
  | .symbolTable => do
    within.putTable "symbol count" within.putSymbol c.symbols.toList
    within.putInt c.symbolTrailer
  | .functionTable => within.putTable "function count" within.putFunction c.functions.toList
  | .labelTable => within.putTable "label count" within.putLabel c.labels.toList
  | .stringSegment => within.putSegment c.strings.toList
  | .codeSegment => within.putSegment c.code.toList
  | .messageTable => within.putTable "message count" within.putMessageEntry c.messages.toList
  | .messageSegment => within.putSegment c.messageData.toList

/-- Writes into a space of `limit` bytes, and gives how much of it is left. -/
def writeWithin (c : Container) (limit : Nat) : Except FormatError Nat := do
  let (_, left) ← (Section.all.forM c.putSection).run limit
  return left

end Container

end NovelScript
