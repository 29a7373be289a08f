import NovelScript.Container.Error
import NovelScript.Instruction.Error
import NovelScript.Packing.Error

/-!
Everything that can go wrong between a script and its files.
-/

namespace NovelScript

inductive SheetError where
  | badLine (line : Nat)
  | unknownIndex (index : UInt32) (line : Nat)
  | unknownOffset (offset : UInt32) (line : Nat)
  deriving DecidableEq, Repr

open Numeral in
def SheetError.message : SheetError → String
  | badLine line => "bad format at line " ++ decimal line
  | unknownIndex index line =>
    "message index " ++ hexPadded 8 index.toNat ++ " not contained in script, line " ++
      decimal line
  | unknownOffset offset line =>
    "string offset " ++ hexPadded 8 offset.toNat ++ " not contained in script, line " ++
      decimal line

inductive FileError where
  | notFound
  | notADirectory
  | isADirectory
  | invalidData
  | nameTooLong
  | nulInPath
  | other (text : String)
  deriving DecidableEq, Repr

def FileError.message : FileError → String
  | notFound => "No such file or directory (os error 2)"
  | notADirectory => "Not a directory (os error 20)"
  | isADirectory => "Is a directory (os error 21)"
  | invalidData => "stream did not contain valid UTF-8"
  | nameTooLong => "File name too long (os error 36)"
  | nulInPath => "file name contained an unexpected NUL byte"
  | other text => text

inductive ScriptError where
  | file (error : FileError)
  | configuration (text : String)
  | settings
  | format (error : FormatError)
  | decode (error : DecodeError)
  | sheet (error : SheetError)
  | packing (error : PackingError)
  deriving DecidableEq, Repr

def ScriptError.message : ScriptError → String
  | file error => "IO error: " ++ error.message
  | configuration text => "configuration error: " ++ text
  | settings => "settings file: not a settings object"
  | format error => "malformed container: " ++ error.message
  | decode error => "bytecode: " ++ error.message
  | sheet error => "translation file: " ++ error.message
  | packing error => "repack failed: " ++ error.message

end NovelScript
