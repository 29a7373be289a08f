import NovelScript.Container.Text
import NovelScript.Log
import NovelScript.Packing.Error

/-!
Rebuilding the message segment: the texts are laid out in the order of their entries, without a
gap, each with a terminator if its entry had one.
-/

namespace NovelScript

/-- Entries for pieces that follow each other from an offset on. -/
def layOutFrom (offset : Nat) : List (List UInt8) → Except PackingError (List MessageEntry)
  | [] => if offset < UInt32.size then .ok [] else .error (.segmentTooLarge "message")
  | piece :: later => do
    if UInt32.size ≤ offset ∨ UInt32.size ≤ piece.length then throw (.segmentTooLarge "message")
    let entries ← layOutFrom (offset + piece.length) later
    return ⟨UInt32.ofNat offset, UInt32.ofNat piece.length⟩ :: entries

namespace Container

variable (c : Container)

/-- The bytes of a new text in the place of an entry. Its terminator is asked for by the place as a
32-bit word. -/
def messagePiece (place : Nat) (text : String) : List UInt8 :=
  Utf16.toBytes text ++ if c.messageTerminated (.ofNat place) then [0, 0] else []

def repackMessages (texts : List String) : Except PackingError Container := do
  if texts.length ≠ c.messages.size then
    throw (.messageCount c.messages.size texts.length)
  let pieces := texts.mapIdx c.messagePiece
  return { c with
    messages := (← layOutFrom 0 pieces).toArray
    messageData := pieces.flatten.toArray }

def repackMessagesRecords (texts : List String) : List Record :=
  match c.repackMessages texts with
  | .ok packed =>
    [⟨.debug, .repack, "message segment repacked: " ++ Numeral.decimal c.messageData.size ++
      " -> " ++ Numeral.decimal packed.messageData.size ++ " bytes"⟩]
  | .error _ => []

end Container

end NovelScript
