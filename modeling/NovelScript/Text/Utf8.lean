import NovelScript.Text.ByteDecoder

/-!
UTF-8. The lossy reader replaces every longest start of a character that cannot be finished.
-/

namespace NovelScript.Utf8

/-- A character whose lead byte has been read: how many bytes are missing, the bits so far, and
the range of the next byte. -/
structure Pending where
  missing : Nat
  bits : Nat
  lower : UInt8 := 0x80
  upper : UInt8 := 0xBF

def start (b : UInt8) : List Char × Option Pending :=
  let n := b.toNat
  if n < 0x80 then ([Char.ofNat n], none)
  else if n < 0xC2 then ([Utf16.replacement], none)
  else if n < 0xE0 then ([], some { missing := 1, bits := n - 0xC0 })
  else if n = 0xE0 then ([], some { missing := 2, bits := 0, lower := 0xA0 })
  else if n = 0xED then ([], some { missing := 2, bits := 0xD, upper := 0x9F })
  else if n < 0xF0 then ([], some { missing := 2, bits := n - 0xE0 })
  else if n = 0xF0 then ([], some { missing := 3, bits := 0, lower := 0x90 })
  else if n < 0xF4 then ([], some { missing := 3, bits := n - 0xF0 })
  else if n = 0xF4 then ([], some { missing := 3, bits := 4, upper := 0x8F })
  else ([Utf16.replacement], none)

/-- A byte that cannot go on with a character starts the next one. -/
def step : Option Pending → UInt8 → List Char × Option Pending
  | none, b => start b
  | some p, b =>
    if p.lower ≤ b ∧ b ≤ p.upper then
      let bits := p.bits * 64 + (b.toNat - 0x80)
      if p.missing = 1 then ([Char.ofNat bits], none)
      else ([], some { missing := p.missing - 1, bits := bits })
    else (Utf16.replacement :: (start b).1, (start b).2)

def decodeLossy (bytes : List UInt8) : List Char := decodeBytes step none bytes

/-- The text of valid bytes, and nothing for others. -/
def decode? (bytes : List UInt8) : Option String := String.fromUTF8? ⟨bytes.toArray⟩

def toBytes (text : String) : List UInt8 := text.toUTF8.toList

end NovelScript.Utf8
