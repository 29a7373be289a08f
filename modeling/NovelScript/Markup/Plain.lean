import NovelScript.Text.Substitution

/-!
The notation of string entries: tab, carriage return and line feed are written with a backslash.
A backslash itself is not escaped.
-/

namespace NovelScript.Markup.Plain

open Text

def escape (text : List Char) : List Char :=
  replace ['\n'] ['\\', 'n'] (replace ['\r'] ['\\', 'r'] (replace ['\t'] ['\\', 't'] text))

def unescape (text : List Char) : List Char :=
  replace ['\\', 'n'] ['\n'] (replace ['\\', 'r'] ['\r'] (replace ['\\', 't'] ['\t'] text))

end NovelScript.Markup.Plain

namespace NovelScript.Markup

def escapeString (text : String) : String := String.ofList (Plain.escape text.toList)

def unescapeString (text : String) : String := String.ofList (Plain.unescape text.toList)

end NovelScript.Markup
