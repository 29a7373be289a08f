import NovelScript.Container.Writer
import NovelScript.Packing.Messages
import NovelScript.Packing.Strings
import NovelScript.TextSheet

/-!
A script: a container together with the index of its names and the references of its code.
Importing a sheet builds a new container from the old one and looks for its references again;
where anything fails the script stays as it was.
-/

namespace NovelScript

structure Script where
  container : Container
  names : NameIndex
  references : References

namespace Script

def ofContainer (c : Container) : Except ScriptError Script := do
  let names := NameIndex.ofContainer c
  return ⟨c, names, ← (c.references names).mapError .decode⟩

def load (bytes : List UInt8) : Except ScriptError Script := do
  ofContainer (← (Container.parse bytes).mapError .format)

variable (s : Script)

def save : Except ScriptError (List UInt8) := s.container.toBytes.mapError .format

def strings : List (UInt32 × String) := s.container.referencedStrings s.references

def exportMessages : String := TextSheet.writeMessages s.references.messages

def exportStrings : String := TextSheet.writeStrings s.strings

def listing : Except ScriptError String := (s.container.listing s.names).mapError .decode

/-- The script with a container that has the same names. -/
def commit (c : Container) : Except ScriptError Script := do
  return { s with container := c, references := ← (c.references s.names).mapError .decode }

/-- The text of each message: that of the last edit of its place, or else its own. Its own text is
asked for by the place as a 32-bit word. -/
def editedMessages (edits : List (UInt32 × String)) : Except ScriptError (List String) :=
  let latest := Std.TreeMap.ofList (edits.map fun (index, text) ↦ (index.toNat, text))
  s.container.messages.toList.zipIdx.mapM fun (entry, place) ↦
    match latest[place]? <|> s.container.messageText? (.ofNat place) with
    | some text => .ok text
    | none => .error (.decode (.messageRange place entry.offset entry.length))

def importMessages (text : String) : Except ScriptError Script := do
  let count := s.container.messages.size
  let edits ← (TextSheet.readMessages text count).mapError .sheet
  let texts ← s.editedMessages edits
  s.commit (← (s.container.repackMessages texts).mapError .packing)

/-- The text of each string: that of the last edit with its offset, or else its own. -/
def editedStrings (edits : List (UInt32 × String)) : Std.TreeMap UInt32 String :=
  .ofList (s.strings ++ edits)

def importStrings (text : String) : Except ScriptError Script := do
  let known := Std.TreeSet.ofList (s.strings.map Prod.fst)
  let edits ← (TextSheet.readStrings text known).mapError .sheet
  let texts := s.editedStrings edits
  s.commit (← (s.container.repackStrings s.references.strings texts).mapError .packing)

end Script

end NovelScript
