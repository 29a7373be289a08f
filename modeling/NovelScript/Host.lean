import NovelScript.FileSystem
import NovelScript.Log

/-!
What a run needs from the system around it, and a session that has it all in one value.
-/

namespace NovelScript

/-- A line of standard error: a log record, or text as it is. -/
inductive Report where
  | record (record : Record)
  | text (text : String)
  deriving DecidableEq, Repr

def Report.line : Report → String
  | record r => r.line
  | text t => t

class Host (m : Type → Type) where
  isFile : String → m Bool
  pathExists : String → m Bool
  read : String → m (Except FileError (List UInt8))
  write : String → List UInt8 → m (Except FileError Unit)
  append : String → List UInt8 → m (Except FileError Unit)
  report : Report → m Unit
  print : String → m Unit

/-- Files, what has been reported, the latest first, and what has been printed. -/
structure Desk where
  files : FileSystem
  reports : List Report := []
  printed : String := ""

abbrev Session := StateM Desk

namespace Session

def change (f : FileSystem → Except FileError FileSystem) : Session (Except FileError Unit) :=
  fun desk ↦
    match f desk.files with
    | .ok files => (.ok (), { desk with files })
    | .error e => (.error e, desk)

instance : Host Session where
  isFile path := return (← get).files.isFile path
  pathExists path := return (← get).files.pathExists path
  read path := return (← get).files.read path
  write path bytes := change (·.write path bytes)
  append path bytes := change (·.append path bytes)
  report r := modify fun desk ↦ { desk with reports := r :: desk.reports }
  print text := modify fun desk ↦ { desk with printed := desk.printed ++ text }

end Session

end NovelScript
