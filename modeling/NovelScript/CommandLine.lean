import NovelScript.Run

/-!
The command line: a mode and an input script, or a settings file, and options in any order.
-/

namespace NovelScript.CommandLine

structure Arguments where
  mode? : Option Mode := none
  input? : Option String := none
  output? : Option String := none
  messages? : Option String := none
  strings? : Option String := none
  settings? : Option String := none
  logFile? : Option String := none
  debug : Bool := false
  deriving DecidableEq, Repr

inductive Stop where
  | help
  | version
  | misuse
  deriving DecidableEq, Repr

inductive ValueOption where
  | output
  | messages
  | strings
  | settings
  | logFile
  deriving DecidableEq, Repr

def ValueOption.ofName? (name : List Char) : Option ValueOption :=
  [("output", output), ("messages", messages), ("strings", strings), ("settings", settings),
    ("log-file", logFile)].lookup (String.ofList name)

/-- Fills a place that is empty, with a value that is not. -/
def fill (place : Option String) (value : String) : Except Stop (Option String) :=
  if place.isSome ∨ value = "" then .error .misuse else .ok (some value)

namespace Arguments

variable (a : Arguments)

def put (value : String) : ValueOption → Except Stop Arguments
  | .output => return { a with output? := ← fill a.output? value }
  | .messages => return { a with messages? := ← fill a.messages? value }
  | .strings => return { a with strings? := ← fill a.strings? value }
  | .settings => return { a with settings? := ← fill a.settings? value }
  | .logFile => return { a with logFile? := ← fill a.logFile? value }

/-- The mode comes first, the input second. -/
def putPositional (value : String) : Except Stop Arguments :=
  match a.mode? with
  | none =>
    match Mode.ofTitle? value with
    | some mode => .ok { a with mode? := some mode }
    | none => .error .misuse
  | some _ => return { a with input? := ← fill a.input? value }

def putDebug : Except Stop Arguments :=
  if a.debug then .error .misuse else .ok { a with debug := true }

/-- A settings file stands for mode and input. -/
def complete : Except Stop Arguments :=
  if a.settings?.isSome ∨ a.mode?.isSome ∧ a.input?.isSome then .ok a else .error .misuse

end Arguments

inductive Token where
  | positional (value : String)
  | endOfOptions
  | debug
  | stop (reason : Stop)
  | option (name : ValueOption)
  | optionWith (name : ValueOption) (value : String)

def longOption (text : List Char) : Token :=
  let name := text.takeWhile (· ≠ '=')
  match ValueOption.ofName? name, text.dropWhile (· ≠ '=') with
  | some option, [] => .option option
  | some option, _ :: value => .optionWith option (String.ofList value)
  | none, _ =>
    if text = "debug".toList then .debug
    else if text = "version".toList then .stop .version
    else if text = "help".toList then .stop .help
    else .stop .misuse

def token (argument : String) : Token :=
  match argument.toList with
  | ['-'] => .positional argument
  | ['-', '-'] => .endOfOptions
  | '-' :: '-' :: text => longOption text
  | '-' :: 'V' :: _ => .stop .version
  | '-' :: 'h' :: _ => .stop .help
  | ['-', 'o'] => .option .output
  | '-' :: 'o' :: '=' :: value => .optionWith .output (String.ofList value)
  | '-' :: 'o' :: value => .optionWith .output (String.ofList value)
  | '-' :: _ => .stop .misuse
  | _ => .positional argument

def Arguments.read (a : Arguments) : List String → Except Stop Arguments
  | [] => a.complete
  | argument :: rest =>
    match token argument with
    | .positional value => do (← a.putPositional value).read rest
    | .endOfOptions => do (← rest.foldlM putPositional a).complete
    | .debug => do (← a.putDebug).read rest
    | .stop reason => .error reason
    | .optionWith name value => do (← a.put value name).read rest
    | .option name =>
      match rest with
      | [] => .error .misuse
      | value :: rest =>
        match token value with
        | .positional value => do (← a.put value name).read rest
        | _ => .error .misuse

variable {m : Type → Type} [Monad m] [Host m]

/-- Without a settings file a complete command line has a mode and an input. -/
def settings (a : Arguments) : m (Except String Settings) := do
  match a.settings?, a.mode?, a.input? with
  | some path, _, _ =>
    let read ← Host.read path
    return ((read.mapError .file) >>= Settings.ofBytes).mapError fun e ↦ path ++ ": " ++ e.message
  | none, some mode, some inputPath =>
    return .ok {
      mode, inputPath, outputPath? := a.output?, messagesPath? := a.messages?,
      stringsPath? := a.strings?, debug := a.debug }
  | none, _, _ => return .error "mode and input are required without --settings"

/-- Shows records, and adds them to a file if there is one. Records for debugging count only if
they are asked for. -/
def log (debug : Bool) (file? : Option String) (records : List Record) : m Unit := do
  let shown := records.filter fun r ↦ debug || r.level != .debug
  shown.forM fun r ↦ Host.report (.record r)
  if let some path := file? then
    let _ ← Host.append path (Utf8.toBytes (String.join (shown.map fun r ↦ r.line ++ "\n")))

def fail (text : String) : m UInt32 := do
  Host.report (.text text)
  return 1

def execute (a : Arguments) : m UInt32 := do
  match ← settings a with
  | .error text => fail ("Error: " ++ text)
  | .ok settings =>
    let opened ← match a.logFile? with
      | some path => Host.append path []
      | none => pure (.ok ())
    match opened with
    | .error e => fail ("Failed to initialise logging: " ++ e.message)
    | .ok () =>
      match ← (run (log (settings.debug || a.debug) a.logFile?) settings).run with
      | .error e => fail ("Error: " ++ e.message)
      | .ok () => return 0

def usage : String :=
  "Usage: [export|import|disasm] [INPUT] [-o|--output FILE] [--messages FILE] [--strings FILE] " ++
    "[--settings FILE] [--debug] [--log-file FILE]\n"

def invoke (arguments : List String) : m UInt32 := do
  match Arguments.read {} arguments with
  | .ok a => execute a
  | .error .version => Host.print "MalieScript-CLI 0.1.0\n"; return 0
  | .error .help => Host.print usage; return 0
  | .error .misuse => Host.report (.text usage); return 2

end NovelScript.CommandLine
