import NovelScript.Host
import NovelScript.Script.Records
import NovelScript.Settings

/-!
A run: read the script, do what the settings say, write the result. Nothing is written before
everything that can go wrong with the texts is past.
-/

namespace NovelScript

namespace Run

variable {m : Type → Type} [Monad m] [Host m]

abbrev Action (m : Type → Type) := ExceptT ScriptError m

def attempt {α : Type} (io : m (Except FileError α)) : Action m α :=
  ExceptT.mk (Except.mapError .file <$> io)

def check {α : Type} (result : Except ScriptError α) : Action m α := ExceptT.mk (pure result)

def readText (path : String) : Action m String := do
  match Utf8.decode? (← attempt (Host.read path)) with
  | some text => return text
  | none => throw (.file .invalidData)

def writeText (path text : String) : Action m Unit :=
  attempt (Host.write path (Utf8.toBytes text))

variable (log : List Record → m Unit)

def logInfo (text : String) : Action m Unit := log [⟨.info, .run, text⟩]

def loadScript (path : String) : Action m Script := do
  if !(← (Host.isFile path : m Bool)) then
    throw (.configuration ("Input script does not exist: " ++ path))
  let bytes ← attempt (Host.read path)
  log (Script.loadRecords bytes)
  check (Script.load bytes)

def readOptional (path : String) : Action m (Option String) := do
  if ← (Host.pathExists path : m Bool) then return some (← readText path)
  logInfo log (path ++ " not found, skipping")
  return none

def exportTexts (settings : Settings) (script : Script) : Action m Unit := do
  writeText settings.messagesPath script.exportMessages
  writeText settings.stringsPath script.exportStrings
  logInfo log ("exported " ++ Numeral.decimal script.references.messages.length ++
    " messages to " ++ settings.messagesPath ++ " and " ++
    Numeral.decimal script.strings.length ++ " strings to " ++ settings.stringsPath)

def importMessages (script : Script) : Option String → Action m Script
  | none => return script
  | some text => do
    log (script.importMessagesRecords text)
    check (script.importMessages text)

def importStrings (script : Script) : Option String → Action m Script
  | none => return script
  | some text => do
    log (script.importStringsRecords text)
    check (script.importStrings text)

def importTexts (settings : Settings) (script : Script) : Action m Unit := do
  let some outputPath := settings.outputPath?
    | throw (.configuration "import needs an output path")
  let messages ← readOptional log settings.messagesPath
  let strings ← readOptional log settings.stringsPath
  if messages.isNone && strings.isNone then
    throw (.configuration ("Neither " ++ settings.messagesPath ++ " nor " ++
      settings.stringsPath ++ " exists"))
  let script ← importMessages log script messages
  let script ← importStrings log script strings
  log script.saveRecords
  attempt (Host.write outputPath (← check script.save))
  logInfo log ("wrote " ++ outputPath)

def disassemble (settings : Settings) (script : Script) : Action m Unit := do
  log script.listingRecords
  writeText settings.listingPath (← check script.listing)
  logInfo log ("wrote listing to " ++ settings.listingPath)

end Run

variable {m : Type → Type} [Monad m] [Host m]

/-- The log takes records as they come, a few or many at a time. -/
def run (log : List Record → m Unit) (settings : Settings) : ExceptT ScriptError m Unit := do
  let script ← Run.loadScript log settings.inputPath
  match settings.mode with
  | .exportTexts => Run.exportTexts log settings script
  | .importTexts => Run.importTexts log settings script
  | .disassemble => Run.disassemble log settings script

end NovelScript
