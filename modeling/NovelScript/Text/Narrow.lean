import NovelScript.Text.ShiftJis
import NovelScript.Text.Utf8

/-!
Narrow names are Shift_JIS unless a byte order mark says otherwise.
-/

namespace NovelScript.Narrow

def unitsOf (bigEndian : Bool) : List UInt8 → List UInt16
  | a :: b :: rest =>
    UInt16.ofNat (Bytes.ofLittleEndian (if bigEndian then [b, a] else [a, b])) ::
      unitsOf bigEndian rest
  | _ => []

/-- An odd last byte is replaced, together with an unpaired high surrogate before it. -/
def decodeUtf16 (bigEndian : Bool) (bytes : List UInt8) : List Char :=
  let units := unitsOf bigEndian bytes
  Utf16.decode units ++
    if bytes.length % 2 = 1 ∧ !units.getLast?.any Utf16.isHigh then [Utf16.replacement] else []

def decode : List UInt8 → List Char
  | 0xEF :: 0xBB :: 0xBF :: rest => Utf8.decodeLossy rest
  | 0xFF :: 0xFE :: rest => decodeUtf16 false rest
  | 0xFE :: 0xFF :: rest => decodeUtf16 true rest
  | bytes => ShiftJis.decode bytes

end NovelScript.Narrow
