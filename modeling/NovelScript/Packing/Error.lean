import NovelScript.Bytes.Width
import NovelScript.Text.Numeral

/-!
Why a segment cannot be rebuilt.
-/

namespace NovelScript

inductive PackingError where
  | messageCount (expected got : Nat)
  | segmentTooLarge (segment : String)
  | missingString (offset : UInt32)
  | notAStringLoad (address : UInt32)
  /-- A string has moved further than the operands of its bucket can reach. -/
  | offsetOverflow (address : UInt32) (old new : UInt32) (width : Width)
  deriving DecidableEq, Repr

open Numeral in
def PackingError.message : PackingError → String
  | messageCount expected got =>
    "expected " ++ decimal expected ++ " message texts, got " ++ decimal got
  | segmentTooLarge segment => "rebuilt " ++ segment ++ " segment exceeds 4 GiB"
  | missingString offset => "no replacement text for string offset 0x" ++ hex offset.toNat
  | notAStringLoad at_ => "reference at " ++ address at_.toNat ++ " is not a string load"
  | offsetOverflow at_ old new width =>
    "string at 0x" ++ hex old.toNat ++ " (reference at " ++ address at_.toNat ++ ") moved to 0x" ++
      hex new.toNat ++ ", which needs more than the " ++ decimal width.size ++
      "-byte operand of its bucket"

end NovelScript
