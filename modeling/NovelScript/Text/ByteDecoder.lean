import NovelScript.Text.Utf16

/-!
Decoders that read one byte at a time and remember at most one unfinished character.
-/

namespace NovelScript

/-- Runs a decoder from a state. A character left unfinished at the end is replaced. -/
def decodeBytes {σ : Type} (step : Option σ → UInt8 → List Char × Option σ) :
    Option σ → List UInt8 → List Char
  | none, [] => []
  | some _, [] => [Utf16.replacement]
  | state, b :: rest => (step state b).1 ++ decodeBytes step (step state b).2 rest

end NovelScript
