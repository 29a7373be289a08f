import NovelScript.Path
import NovelScript.Script.Error

/-!
Files and directories below a working directory. Two paths that lead to the same place name the
same file. Of the directories above it nothing is known but that they are there.
-/

namespace NovelScript

inductive Node where
  | file (bytes : List UInt8)
  | directory
  deriving DecidableEq, Repr

/-- The names on the way from the working directory, or from the root if the first is a slash. Two
full stops stand for the directory above. -/
abbrev Place := List String

namespace Place

def isAbove (place : Place) : Bool := place.all fun name ↦ name = ".." || name = "/"

/-- The root is its own parent. -/
def parent (place : Place) : Place :=
  match place.getLast? with
  | none | some ".." => place ++ [".."]
  | some "/" => place
  | some _ => place.dropLast

end Place

structure FileSystem where
  nodes : List (Place × Node)
  deriving DecidableEq, Repr

namespace FileSystem

def empty : FileSystem := ⟨[]⟩

variable (fs : FileSystem)

/-- The working directory and those above it are always there. -/
def node? (place : Place) : Option Node :=
  if place.isAbove then some .directory else fs.nodes.lookup place

def set (place : Place) (node : Node) : FileSystem :=
  ⟨(place, node) :: fs.nodes.filter (·.1 ≠ place)⟩

def maxName : Nat := 255

def maxPath : Nat := 4095

/-- Follows the names of a path from a place that must be a directory. The last place need not
be there. -/
def follow (place : Place) : List String → Except FileError Place
  | [] => .ok place
  | name :: rest =>
    match fs.node? place with
    | none => .error .notFound
    | some (.file _) => .error .notADirectory
    | some .directory =>
      if name = "" ∨ name = "." then follow place rest
      else if name = ".." then follow place.parent rest
      else if maxName < name.utf8ByteSize then .error .nameTooLong
      else follow (place ++ [name]) rest

def origin (path : String) : Except FileError Place :=
  if '\x00' ∈ path.toList then .error .nulInPath
  else if path = "" then .error .notFound
  else if maxPath < path.utf8ByteSize then .error .nameTooLong
  else .ok (if path.toList.head? = some '/' then ["/"] else [])

def place (path : String) : Except FileError Place := do
  fs.follow (← origin path) (Path.components path)

/-- The place of a path to a file that may have to be made. -/
def newPlace (path : String) : Except FileError Place := do
  let names := Path.components path
  if names.getLast? ≠ some "" then fs.place path
  else
    let last := (names.reverse.dropWhile (· = "")).tail
    let _ ← fs.follow (← origin path) (last.reverse ++ ["."])
    throw .isADirectory

def get (path : String) : Except FileError Node := do
  match fs.node? (← fs.place path) with
  | some node => return node
  | none => throw .notFound

def isFile (path : String) : Bool :=
  match fs.get path with
  | .ok (.file _) => true
  | _ => false

def pathExists (path : String) : Bool :=
  match fs.get path with
  | .ok _ => true
  | .error _ => false

def read (path : String) : Except FileError (List UInt8) := do
  match ← fs.get path with
  | .file bytes => return bytes
  | .directory => throw .isADirectory

/-- The place to write a file to, and what the file holds. No file can be written to a path that
ends in a slash or leads to a directory. -/
def openPlace (path : String) : Except FileError (Place × List UInt8) := do
  let place ← fs.newPlace path
  match fs.node? place with
  | some .directory => throw .isADirectory
  | some (.file bytes) => return (place, bytes)
  | none => return (place, [])

def write (path : String) (bytes : List UInt8) : Except FileError FileSystem := do
  let (place, _) ← fs.openPlace path
  return fs.set place (.file bytes)

def append (path : String) (bytes : List UInt8) : Except FileError FileSystem := do
  let (place, before) ← fs.openPlace path
  return fs.set place (.file (before ++ bytes))

end FileSystem

end NovelScript
