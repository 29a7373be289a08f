import NovelScript.Path
import NovelScript.Script.Error
import NovelScript.Settings.Json
import NovelScript.Text.Utf8

/-!
What a run is to do, as a JSON file says it.
-/

namespace NovelScript

inductive Mode where
  /-- Write the texts of the script to text sheets. -/
  | exportTexts
  /-- Put the texts of sheets into a copy of the script. -/
  | importTexts
  | disassemble
  deriving DecidableEq, Repr

namespace Mode

def all : List Mode := [exportTexts, importTexts, disassemble]

def title : Mode → String
  | exportTexts => "export"
  | importTexts => "import"
  | disassemble => "disasm"

def ofTitle? (title : String) : Option Mode := all.find? (·.title == title)

/-- A mode is its title, or an object with the title as its only member and null in it. -/
def ofJson? : Json → Option Mode
  | .string units => (Json.text? units).bind ofTitle?
  | .object [(title, .null)] => (Json.text? title).bind ofTitle?
  | _ => none

end Mode

structure Settings where
  mode : Mode
  inputPath : String
  outputPath? : Option String := none
  messagesPath? : Option String := none
  stringsPath? : Option String := none
  debug : Bool := false
  deriving DecidableEq, Repr

namespace Settings

def keys : List String :=
  ["mode", "input_path", "output_path", "messages_path", "strings_path", "debug"]

/-- The value of a key that stands at most once. Nothing if it stands more often. -/
def once? (members : List (String × Json)) (key : String) : Option (Option Json) :=
  match members.filter (·.1 == key) with
  | [] => some none
  | [(_, value)] => some (some value)
  | _ => none

def pathOfJson? : Json → Option String
  | .string units => Json.text? units
  | _ => none

def optionalPath? : Option Json → Option (Option String)
  | none => some none
  | some .null => some none
  | some value => (pathOfJson? value).map some

def debug? : Option Json → Option Bool
  | none => some false
  | some (.bool value) => some value
  | _ => none

def ofMembers? (members : List (String × Json)) : Option Settings := do
  return {
    mode := ← (← once? members "mode").bind Mode.ofJson?
    inputPath := ← (← once? members "input_path").bind pathOfJson?
    outputPath? := ← optionalPath? (← once? members "output_path")
    messagesPath? := ← optionalPath? (← once? members "messages_path")
    stringsPath? := ← optionalPath? (← once? members "strings_path")
    debug := ← debug? (← once? members "debug") }

/-- An object, whose other members do not matter as long as their keys are texts, or a list of
the values in order. -/
def ofJson? : Json → Option Settings
  | .object members =>
    (members.mapM fun member ↦ (Json.text? member.1).map (·, member.2)).bind ofMembers?
  | .array items => if items.length ≤ keys.length then ofMembers? (keys.zip items) else none
  | _ => none

def ofBytes (bytes : List UInt8) : Except ScriptError Settings :=
  match Utf8.decode? bytes with
  | none => .error (.file .invalidData)
  | some text => ((Json.parse? text).bind ofJson?).elim (.error .settings) .ok

variable (s : Settings)

def messagesPath : String := s.messagesPath?.getD (Path.withExtension s.inputPath "msg.txt")

def stringsPath : String := s.stringsPath?.getD (Path.withExtension s.inputPath "str.txt")

def listingPath : String := s.outputPath?.getD (Path.withExtension s.inputPath "dis.txt")

end Settings

end NovelScript
