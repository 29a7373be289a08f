import NovelScript.Markup.Message
import NovelScript.Markup.Plain
import NovelScript.References
import NovelScript.Script.Error
import NovelScript.Text.Lines

/-!
Sheets of texts to edit. An entry is a line of a mark, a key in hexadecimal, the mark again and a
text in notation. Messages are written twice, once for reference and once to be edited; reading
looks at the lines with the mark of its own kind alone.
-/

namespace NovelScript

namespace TextSheet

/-- Marks the copy of a message for reference, and every string. -/
def referenceMark : Char := '◇'

/-- Marks the copy of a message to be edited. -/
def editMark : Char := '◆'

structure Entry where
  key : UInt32
  text : List Char
  deriving DecidableEq, Repr

def Entry.line (mark : Char) (e : Entry) : List Char :=
  mark :: Numeral.hexDigits 8 e.key.toNat ++ mark :: e.text ++ ['\n']

def writeMessages (messages : List MessageRef) : String :=
  String.ofList <| messages.flatMap fun m ↦
    let entry : Entry := ⟨m.index, Markup.Message.escape m.text.toList⟩
    entry.line referenceMark ++ entry.line editMark ++ ['\n']

def writeStrings (strings : List (UInt32 × String)) : String :=
  String.ofList <| strings.flatMap fun (offset, text) ↦
    Entry.line referenceMark ⟨offset, Markup.Plain.escape text.toList⟩

/-- A key is one or more hexadecimal digits of a 32-bit number. -/
def key? (digits : List Char) : Option UInt32 :=
  if digits.all (Numeral.hexValue? · |>.isSome) then
    (Numeral.readWord .sixteen digits).toOption
  else none

def entry? (mark : Char) (rest : List Char) : Option Entry :=
  match rest.dropWhile (· ≠ mark) with
  | [] => none
  | _ :: text => (key? (rest.takeWhile (· ≠ mark))).map (⟨·, text⟩)

/-- The lines with a mark, each with its number, from zero. A byte order mark before the first
line is dropped. -/
def markedLines (mark : Char) (text : String) : List (List Char × Nat) :=
  let text := match text.toList with
    | '\uFEFF' :: rest => rest
    | text => text
  (Text.lines text).zipIdx.filter fun (line, _) ↦ line.head? == some mark

/-- Fails at the first marked line that is no entry or is not accepted. -/
def read {α : Type} (mark : Char) (accept : Nat → Entry → Except SheetError α)
    (text : String) : Except SheetError (List α) :=
  (markedLines mark text).mapM fun (line, number) ↦
    match entry? mark line.tail with
    | some entry => accept number entry
    | none => .error (.badLine number)

/-- The messages to be replaced in a table of `count` messages. Names of characters are skipped. -/
def readMessages (text : String) (count : Nat) :
    Except SheetError (List (UInt32 × String)) := do
  let read ← read editMark (fun line e ↦
    if e.key = nameIndex then .ok none
    else if e.key.toNat < count then
      .ok (some (e.key, String.ofList (Markup.Message.unescape e.text)))
    else .error (.unknownIndex e.key line)) text
  return read.filterMap id

def readStrings (text : String) (known : Std.TreeSet UInt32) :
    Except SheetError (List (UInt32 × String)) :=
  read referenceMark (fun line e ↦
    if e.key ∈ known then .ok (e.key, String.ofList (Markup.Plain.unescape e.text))
    else .error (.unknownOffset e.key line)) text

end TextSheet

end NovelScript
