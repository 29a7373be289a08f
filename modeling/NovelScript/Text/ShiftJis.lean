import NovelScript.Text.ByteDecoder
import NovelScript.Text.ShiftJis.Index

/-!
The Shift_JIS decoder of the Encoding Standard.
-/

namespace NovelScript.ShiftJis

def pointer? (lead trail : UInt8) : Option Nat :=
  if 0x40 ≤ trail ∧ trail ≤ 0x7E ∨ 0x80 ≤ trail ∧ trail ≤ 0xFC then
    some ((lead.toNat - if lead < 0xA0 then 0x81 else 0xC1) * 188 +
      (trail.toNat - if trail < 0x7F then 0x40 else 0x41))
  else none

/-- Pointers 8836 to 10715 are for private use. -/
def char? (lead trail : UInt8) : Option Char :=
  (pointer? lead trail).bind fun pointer ↦
    if 8836 ≤ pointer ∧ pointer ≤ 10715 then some (Char.ofNat (0xE000 + (pointer - 8836)))
    else indexed? pointer

/-- A trail byte that makes no character is read again by itself if it is ASCII. -/
def step : Option UInt8 → UInt8 → List Char × Option UInt8
  | none, b =>
    if b ≤ 0x80 then ([Char.ofNat b.toNat], none)
    else if 0xA1 ≤ b ∧ b ≤ 0xDF then ([Char.ofNat (0xFF61 + (b.toNat - 0xA1))], none)
    else if b = 0xA0 ∨ 0xFD ≤ b then ([Utf16.replacement], none)
    else ([], some b)
  | some lead, trail =>
    match char? lead trail with
    | some c => ([c], none)
    | none => (Utf16.replacement :: if trail < 0x80 then [Char.ofNat trail.toNat] else [], none)

def decode (bytes : List UInt8) : List Char := decodeBytes step none bytes

end NovelScript.ShiftJis
