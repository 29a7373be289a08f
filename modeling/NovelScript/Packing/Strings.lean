import NovelScript.Container.Text
import NovelScript.Log
import NovelScript.Packing.Error
import NovelScript.Opcode
import NovelScript.Sequence.Ascending
import NovelScript.Sequence.Latest

/-!
Rebuilding the string segment. Every string stays in the bucket of its old offset, given by the
width of that offset. The buckets are laid out from the narrowest, and the strings of a bucket
from the shortest, without a gap. Then the operands of the loads are set to the new offsets.
-/

namespace NovelScript

structure PackedString where
  old : UInt32
  bytes : List UInt8
  deriving DecidableEq, Repr

structure Patch where
  address : UInt32
  old : UInt32
  new : UInt32
  deriving DecidableEq, Repr

namespace PackedString

def terminated (s : PackedString) : List UInt8 := s.bytes ++ [0, 0]

def bucket (w : Width) (strings : List PackedString) : List PackedString :=
  let sized := (strings.filter (Width.ofOffset ·.old.toNat = w)).map fun s ↦ (s.bytes.length, s)
  (sized.mergeSort fun a b ↦ a.1 ≤ b.1).map Prod.snd

def order (strings : List PackedString) : List PackedString :=
  bucket .one strings ++ bucket .two strings ++ bucket .four strings

/-- The old and the new offset of strings that follow each other from an offset on. -/
def movesFrom (offset : Nat) : List PackedString → Except PackingError (List (UInt32 × UInt32))
  | [] => .ok []
  | s :: later => do
    if UInt32.size ≤ offset then throw (.segmentTooLarge "string")
    let moves ← movesFrom (offset + s.terminated.length) later
    return (s.old, UInt32.ofNat offset) :: moves

end PackedString

/-- The strings at the distinct offsets of `refs`, with their new texts. -/
def collectStrings (refs : List (UInt32 × UInt32)) (texts : Std.TreeMap UInt32 String) :
    Except PackingError (List PackedString) :=
  (ascending (refs.map Prod.snd)).mapM fun offset ↦
    match texts[offset]? with
    | some text => .ok ⟨offset, Utf16.toBytes text⟩
    | none => .error (.missingString offset)

/-- Changes loads at ascending addresses in the code from `position` on. An operand that is
already changed counts as code for the loads after it. -/
def patchFrom (position : Nat) (code : List UInt8) :
    List Patch → Except PackingError (List UInt8)
  | [] => .ok code
  | p :: later => do
    let width := Width.ofOffset p.old.toNat
    if width.size < (Width.ofOffset p.new.toNat).size then
      throw (.offsetOverflow p.address p.old p.new width)
    let skip := p.address.toNat - position
    match code.drop skip with
    | [] => throw (.notAStringLoad p.address)
    | byte :: rest =>
      match ((Opcode.ofByte? byte).bind (·.stringWidth?)).bind
          fun w ↦ (Bytes.split? w.size rest).map fun (_, after) ↦ (w, after) with
      | none => throw (.notAStringLoad p.address)
      | some (w, after) =>
        let patched := Bytes.littleEndian w.size p.new.toNat ++ after
        return code.take skip ++ byte :: (← patchFrom (p.address.toNat + 1) patched later)

namespace Container

variable (c : Container)

/-- `refs` holds the address and the old offset of each load, by ascending address, and `texts`
the new text of each old offset. -/
def repackStrings (refs : List (UInt32 × UInt32)) (texts : Std.TreeMap UInt32 String) :
    Except PackingError Container := do
  let strings := PackedString.order (← collectStrings refs texts)
  let moves := Std.TreeMap.ofList (← PackedString.movesFrom 0 strings)
  let patches ← refs.mapM fun (address, old) ↦
    match moves[old]? with
    | some new => .ok ⟨address, old, new⟩
    | none => .error (.missingString old)
  let code ← patchFrom 0 c.code.toList patches
  return { c with strings := (strings.flatMap (·.terminated)).toArray, code := code.toArray }

def repackStringsRecords (refs : List (UInt32 × UInt32)) (texts : Std.TreeMap UInt32 String) :
    List Record :=
  match c.repackStrings refs texts with
  | .ok packed =>
    let moved := (ascending (refs.map Prod.snd)).length
    [⟨.debug, .repack, "string segment repacked: " ++ Numeral.decimal moved ++ " offsets, " ++
      Numeral.decimal c.strings.size ++ " -> " ++ Numeral.decimal packed.strings.size ++
      " bytes"⟩]
  | .error _ => []

end Container

end NovelScript
