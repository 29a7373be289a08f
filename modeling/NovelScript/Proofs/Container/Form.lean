import NovelScript.Container.Writer

/-!
The form of a container: the container with each name as it stands in the bytes. A container has
many forms, one for each way to write its names, and each form has its bytes.
-/

namespace NovelScript

/-- A string field without its length word. The terminator is part of the body. -/
structure StringField where
  wide : Bool
  body : List UInt8
  deriving DecidableEq, Repr

namespace StringField

variable (f : StringField)

def terminator : Nat := if f.wide then 2 else 1

def lengthWord : UInt32 := UInt32.ofNat (f.body.length + if f.wide then Source.wideFlag else 0)

def bytes : List UInt8 := Bytes.ofWord f.lengthWord ++ f.body

def text : String :=
  let content := f.body.take (f.body.length - f.terminator)
  if f.wide then Utf16.ofBytes content else String.ofList (Narrow.decode content)

def Valid : Prop := f.terminator ≤ f.body.length ∧ f.body.length < Source.wideFlag

/-- The field that a text is written as. -/
def ofText (text : String) : StringField := ⟨true, Utf16.toBytes text ++ [0, 0]⟩

end StringField

/-- The first zero in the place of a first number ends a list of pairs. -/
def Symbol.Delimited (s : Symbol) : Prop := ∀ d ∈ s.dependencies, d.1 ≠ 0

def Container.Delimited (c : Container) : Prop := ∀ s ∈ c.symbols, s.Delimited

/-- An entry of a table of names, and the field of its name. -/
abbrev Named (α : Type) := StringField × α

structure Form where
  symbols : List (Named Symbol)
  symbolTrailer : Int32
  functions : List (Named Function)
  labels : List (Named Label)
  strings : List UInt8
  code : List UInt8
  messages : List MessageEntry
  messageData : List UInt8

namespace Form

open Section (int)

def symbolBytes (p : Named Symbol) : List UInt8 :=
  p.1.bytes ++ p.2.dependencies.flatMap (fun (a, b) ↦ int a ++ int b) ++ int 0 ++
    int p.2.kind ++ int p.2.unknown8 ++ int p.2.unknown14 ++ int p.2.convention

def functionBytes (p : Named Function) : List UInt8 :=
  p.1.bytes ++ int p.2.index ++ int p.2.unknown4 ++ int p.2.offset

def labelBytes (p : Named Label) : List UInt8 := p.1.bytes ++ Bytes.ofWord p.2.offset

def messageBytes (m : MessageEntry) : List UInt8 := Bytes.ofWord m.offset ++ Bytes.ofWord m.length

def tableBytes {α : Type} (itemBytes : α → List UInt8) (items : List α) : List UInt8 :=
  Bytes.ofWord (UInt32.ofNat items.length) ++ items.flatMap itemBytes

def segmentBytes (bytes : List UInt8) : List UInt8 :=
  Bytes.ofWord (UInt32.ofNat bytes.length) ++ bytes

variable (F : Form)

def sectionBytes : Section → List UInt8
  | .symbolTable => tableBytes symbolBytes F.symbols ++ int F.symbolTrailer
  | .functionTable => tableBytes functionBytes F.functions
  | .labelTable => tableBytes labelBytes F.labels
  | .stringSegment => segmentBytes F.strings
  | .codeSegment => segmentBytes F.code
  | .messageTable => tableBytes messageBytes F.messages
  | .messageSegment => segmentBytes F.messageData

def bytes : List UInt8 := Section.all.flatMap F.sectionBytes

def container : Container where
  symbols := (F.symbols.map Prod.snd).toArray
  symbolTrailer := F.symbolTrailer
  functions := (F.functions.map Prod.snd).toArray
  labels := (F.labels.map Prod.snd).toArray
  strings := F.strings.toArray
  code := F.code.toArray
  messages := F.messages.toArray
  messageData := F.messageData.toArray

def fields : List StringField :=
  F.symbols.map Prod.fst ++ F.functions.map Prod.fst ++ F.labels.map Prod.fst

/-- Each name is the text of its field, and all lengths fit into their words. -/
structure Valid : Prop where
  symbols : F.symbols.length < UInt32.size ∧
    ∀ p ∈ F.symbols, p.1.Valid ∧ p.2.name = p.1.text ∧ p.2.Delimited
  functions : F.functions.length < UInt32.size ∧
    ∀ p ∈ F.functions, p.1.Valid ∧ p.2.name = p.1.text
  labels : F.labels.length < UInt32.size ∧ ∀ p ∈ F.labels, p.1.Valid ∧ p.2.name = p.1.text
  strings : F.strings.length < UInt32.size
  code : F.code.length < UInt32.size
  messages : F.messages.length < UInt32.size
  messageData : F.messageData.length < UInt32.size

def ofContainer (c : Container) : Form where
  symbols := c.symbols.toList.map fun s ↦ (.ofText s.name, s)
  symbolTrailer := c.symbolTrailer
  functions := c.functions.toList.map fun f ↦ (.ofText f.name, f)
  labels := c.labels.toList.map fun l ↦ (.ofText l.name, l)
  strings := c.strings.toList
  code := c.code.toList
  messages := c.messages.toList
  messageData := c.messageData.toList

@[simp] theorem container_ofContainer (c : Container) : (ofContainer c).container = c := by
  simp only [ofContainer, container, List.map_map, Function.comp_def, List.map_id',
    Array.toArray_toList]

end Form

namespace Source

variable (src : Source)

/-- Reads a string field as it stands. -/
def field : Reader StringField := do
  let bytes ← get
  let raw ← src.word
  let length := raw.toNat % wideFlag
  let wide := decide (wideFlag ≤ raw.toNat)
  if length < StringField.terminator ⟨wide, []⟩ then
    throw (.badStringLength src.within (src.position bytes) raw)
  return ⟨wide, ← src.payload length⟩

def namedSymbol : Reader (Named Symbol) := do
  let name ← src.field
  return (name, {
    name := name.text
    dependencies := ← src.dependencies
    kind := ← src.int
    unknown8 := ← src.int
    unknown14 := ← src.int
    convention := ← src.int })

def namedFunction : Reader (Named Function) := do
  let name ← src.field
  return (name, {
    name := name.text
    index := ← src.int
    unknown4 := ← src.int
    offset := ← src.int })

def namedLabel : Reader (Named Label) := do
  let name ← src.field
  return (name, { name := name.text, offset := ← src.word })

end Source

namespace Form

def reader (total : Nat) : Reader Form := do
  let src (within : Section) : Source := ⟨within, total⟩
  return {
    symbols := ← (src .symbolTable).table (src .symbolTable).namedSymbol
    symbolTrailer := ← (src .symbolTable).int
    functions := ← (src .functionTable).table (src .functionTable).namedFunction
    labels := ← (src .labelTable).table (src .labelTable).namedLabel
    strings := ← (src .stringSegment).segment
    code := ← (src .codeSegment).segment
    messages := ← (src .messageTable).table (src .messageTable).messageEntry
    messageData := ← (src .messageSegment).segment }

/-- The form whose bytes these are, from the first to the last. -/
def read (bytes : List UInt8) : Except FormatError Form := do
  let (F, rest) ← (reader bytes.length).run bytes
  if rest.isEmpty then return F else throw (.trailingBytes rest.length)

end Form

end NovelScript
