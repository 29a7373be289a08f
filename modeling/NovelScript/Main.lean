import NovelScript.CommandLine

/-!
The program.
-/

namespace NovelScript

def FileError.ofError : IO.Error → FileError
  | .noFileOrDirectory .. => .notFound
  | e => .other (toString e)

def attemptFile {α : Type} (action : IO α) : IO (Except FileError α) := do
  try return .ok (← action) catch e => return .error (.ofError e)

instance : Host IO where
  isFile path := do
    try return (← (← IO.FS.realPath path).metadata).type == .file catch _ => return false
  pathExists path := do
    try (← IO.FS.realPath path).pathExists catch _ => return false
  read path := attemptFile do return (← IO.FS.readBinFile path).toList
  write path bytes := attemptFile (IO.FS.writeBinFile path ⟨bytes.toArray⟩)
  append path bytes := attemptFile do
    (← IO.FS.Handle.mk path .append).write ⟨bytes.toArray⟩
  report r := IO.eprintln r.line
  print text := IO.print text

end NovelScript

def main (arguments : List String) : IO UInt32 := NovelScript.CommandLine.invoke arguments
