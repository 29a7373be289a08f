import NovelScript.Container.Error
import NovelScript.Text.Narrow

/-!
Reading a container. Each reader takes its bytes from the front of those that are left. A word
that is cut off is reported at the end of the input, a payload that is cut off at its start.
-/

namespace NovelScript

abbrev Reader := StateT (List UInt8) (Except FormatError)

/-- What an error has to know: the section being read and the length of the whole input. -/
structure Source where
  within : Section
  total : Nat

namespace Source

variable (src : Source)

def position (rest : List UInt8) : Nat := src.total - rest.length

def word : Reader UInt32 := fun bytes ↦
  match Bytes.split? 4 bytes with
  | some (front, rest) => .ok (Bytes.toWord front, rest)
  | none => .error (.truncated src.within src.total)

def int : Reader Int32 := return (← src.word).toInt32

def payload (length : Nat) : Reader (List UInt8) := fun bytes ↦
  match Bytes.split? length bytes with
  | some (front, rest) => .ok (front, rest)
  | none => .error (.truncated src.within (src.position bytes))

/-- The high bit of a string field's length word marks a wide string. -/
def wideFlag : Nat := 0x80000000

/-- The terminator counts in the length, but its bytes are not looked at. -/
def string : Reader String := do
  let bytes ← get
  let raw ← src.word
  let length := raw.toNat % wideFlag
  let wide := wideFlag ≤ raw.toNat
  let terminator := if wide then 2 else 1
  if length < terminator then
    throw (.badStringLength src.within (src.position bytes) raw)
  let field ← src.payload length
  let text := field.take (length - terminator)
  return if wide then Utf16.ofBytes text else String.ofList (Narrow.decode text)

def many {α : Type} (item : Reader α) : Nat → Reader (List α)
  | 0 => return []
  | count + 1 => return (← item) :: (← many item count)

def table {α : Type} (item : Reader α) : Reader (List α) := do
  many item (← src.word).toNat

def segment : Reader (List UInt8) := do
  src.payload (← src.word).toNat

/-- The pairs up to the first zero in the place of a first number. -/
def dependencies : Reader (List (Int32 × Int32))
  | a :: b :: c :: d :: rest =>
    let first := (Bytes.toWord [a, b, c, d]).toInt32
    if first = 0 then .ok ([], rest)
    else
      match rest with
      | e :: f :: g :: h :: rest =>
        match dependencies rest with
        | .ok (more, after) => .ok ((first, (Bytes.toWord [e, f, g, h]).toInt32) :: more, after)
        | .error e => .error e
      | _ => .error (.truncated src.within src.total)
  | _ => .error (.truncated src.within src.total)

def symbol : Reader Symbol := do
  return {
    name := ← src.string
    dependencies := ← src.dependencies
    kind := ← src.int
    unknown8 := ← src.int
    unknown14 := ← src.int
    convention := ← src.int }

def function : Reader Function := do
  return {
    name := ← src.string
    index := ← src.int
    unknown4 := ← src.int
    offset := ← src.int }

def label : Reader Label := do
  return { name := ← src.string, offset := ← src.word }

def messageEntry : Reader MessageEntry := do
  return { offset := ← src.word, length := ← src.word }

end Source

namespace Container

/-- Reads one section into a container whose earlier sections are read. -/
def readSection (total : Nat) (c : Container) (within : Section) : Reader Container :=
  let src : Source := ⟨within, total⟩
  match within with
  | .symbolTable => do
    let symbols ← src.table src.symbol
    return { c with symbols := symbols.toArray, symbolTrailer := ← src.int }
  | .functionTable => return { c with functions := (← src.table src.function).toArray }
  | .labelTable => return { c with labels := (← src.table src.label).toArray }
  | .stringSegment => return { c with strings := (← src.segment).toArray }
  | .codeSegment => return { c with code := (← src.segment).toArray }
  | .messageTable => return { c with messages := (← src.table src.messageEntry).toArray }
  | .messageSegment => return { c with messageData := (← src.segment).toArray }

/-- The container whose bytes these are, from the first to the last. -/
def parse (bytes : List UInt8) : Except FormatError Container := do
  let (c, rest) ← (Section.all.foldlM (readSection bytes.length) {}).run bytes
  if rest.isEmpty then return c else throw (.trailingBytes rest.length)

/-- The sections that reading gets to, each with the position where it starts. -/
def sectionStarts (bytes : List UInt8) : List (Section × Nat) :=
  go {} bytes Section.all
where
  go (c : Container) (rest : List UInt8) : List Section → List (Section × Nat)
    | [] => []
    | within :: later =>
      (within, bytes.length - rest.length) ::
        match (readSection bytes.length c within).run rest with
        | .ok (c, rest) => go c rest later
        | .error _ => []

end Container

end NovelScript
