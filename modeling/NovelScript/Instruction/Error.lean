import NovelScript.Opcode
import NovelScript.Text.Numeral

/-!
Why a code segment cannot be read, or its references cannot be followed.
-/

namespace NovelScript

inductive DecodeError where
  | truncated (address : UInt32) (op : Opcode)
  | jumpTarget (address : UInt32) (op : Opcode) (target : UInt32)
  | functionIndex (address : UInt32) (op : Opcode) (index : Int)
  | unknownSymbol (address : UInt32) (name : String)
  | stringOffset (address : UInt32) (op : Opcode) (offset : UInt32)
  /-- A message is shown that is not in the message table or segment. -/
  | messageIndex (address : UInt32) (index : UInt32)
  | messageRange (index : Nat) (offset length : UInt32)
  deriving DecidableEq, Repr

namespace DecodeError

open Numeral in
def message : DecodeError → String
  | truncated at_ op =>
    op.mnemonic ++ " at " ++ address at_.toNat ++ " runs past the end of the code segment"
  | jumpTarget at_ op target =>
    op.mnemonic ++ " at " ++ address at_.toNat ++ " targets " ++ address target.toNat ++
      ", outside the code segment and not labelled"
  | functionIndex at_ op index =>
    op.mnemonic ++ " at " ++ address at_.toNat ++ " calls function index " ++ signed index ++
      ", outside the function table"
  | unknownSymbol at_ name =>
    "CALL at " ++ address at_.toNat ++ ": no symbol named '" ++ name ++
      "' to read its calling convention from"
  | stringOffset at_ op offset =>
    op.mnemonic ++ " at " ++ address at_.toNat ++ " loads string offset 0x" ++ hex offset.toNat ++
      ", outside the string segment"
  | messageIndex at_ index =>
    "CALL at " ++ address at_.toNat ++ " emits message 0x" ++ hex index.toNat ++
      ", which is not in the message table"
  | messageRange index offset length =>
    "message " ++ decimal index ++ " spans 0x" ++ hex offset.toNat ++ "+0x" ++
      hex length.toNat ++ ", outside the message segment"

end DecodeError

end NovelScript
