import NovelScript.Container.Basic
import NovelScript.Text.Numeral

/-!
Why bytes are not a container, or a container cannot be written.
-/

namespace NovelScript

inductive FormatError where
  | truncated (within : Section) (offset : Nat)
  | badStringLength (within : Section) (offset : Nat) (length : UInt32)
  | trailingBytes (count : Nat)
  | tooLarge (within : Section) (what : String) (value : Nat)
  /-- The space to write into has run out. -/
  | write (within : Section)
  deriving DecidableEq, Repr

open Numeral in
def FormatError.message : FormatError → String
  | truncated within offset => within.title ++ " truncated at offset 0x" ++ hex offset
  | badStringLength within offset length =>
    within.title ++ ": string field length 0x" ++ hex length.toNat ++ " at offset 0x" ++
      hex offset ++ " cannot hold its terminator"
  | trailingBytes count => decimal count ++ " trailing bytes after the message segment"
  | tooLarge within what value =>
    within.title ++ ": " ++ what ++ " " ++ decimal value ++ " does not fit in 32 bits"
  | write within => within.title ++ ": write failed: failed to write whole buffer"

end NovelScript
