import NovelScript.Text.Substitution

/-!
The notation of message texts. The script engine starts a control sequence with U+0007:

* a voice span, U+0007 U+0008 body U+0000, is written in braces;
* a ruby span, U+0007 U+0001 base U+000A gloss U+0000, is written as the base in square
  brackets and the gloss in parentheses;
* the markers U+0007 U+0004, U+0007 U+0006, U+0007 U+0009, line feed and carriage return are
  written as one letter in square brackets.

Each span that is found is the shortest one that starts where it starts.
-/

namespace NovelScript.Markup

open Text

def bell : Char := '\x07'

def null : Char := '\x00'

/-- A run of one or more characters outside `excluded`, up to the first `close` after its first
character. The first character may be `close` itself. Gives the run and what follows `close`. -/
def runUntil? (excluded : List Char) (close : Char) : List Char → Option (List Char × List Char)
  | [] => none
  | c :: rest =>
    if c ∈ excluded then none
    else
      let inRun : Char → Bool := fun d ↦ d ≠ close && !excluded.contains d
      match rest.dropWhile inRun with
      | d :: after => if d = close then some (c :: rest.takeWhile inRun, after) else none
      | [] => none

def voice? : List Char → Option (List Char)
  | a :: b :: rest =>
    if a = bell ∧ b = '\x08' then (runUntil? [bell, '\x08'] null rest).map Prod.fst else none
  | _ => none

/-- Reads on in a ruby base whose characters so far are given in reverse. Each line feed after
the first character may end the base, if a gloss follows it. -/
def rubyFrom (base : List Char) : List Char → Option (List Char × List Char)
  | [] => none
  | c :: rest =>
    match if c = '\n' ∧ base ≠ [] then runUntil? ['\n'] null rest else none with
    | some (gloss, _) => some (base.reverse, gloss)
    | none => if c = bell ∨ c = '\x01' then none else rubyFrom (c :: base) rest

def ruby? : List Char → Option (List Char × List Char)
  | a :: b :: rest => if a = bell ∧ b = '\x01' then rubyFrom [] rest else none
  | _ => none

def braced? : List Char → Option (List Char)
  | c :: rest => if c = '{' then (runUntil? ['{', '}'] '}' rest).map Prod.fst else none
  | [] => none

/-- The text in square brackets at the start of a text, and the text in parentheses directly
after it. -/
def annotated? : List Char → Option (List Char × List Char)
  | c :: rest =>
    if c = '[' then
      match runUntil? ['[', ']'] ']' rest with
      | some (base, d :: after) =>
        if d = '(' then (runUntil? ['(', ')'] ')' after).map fun note ↦ (base, note.1) else none
      | _ => none
    else none
  | [] => none

def writeVoice : Rule := fun ahead ↦
  (voice? ahead).map fun body ↦ ⟨'{' :: body ++ ['}'], body.length + 3⟩

def writeRuby : Rule := fun ahead ↦
  (ruby? ahead).map fun (base, gloss) ↦
    ⟨'[' :: base ++ [']', '('] ++ gloss ++ [')'], base.length + gloss.length + 4⟩

def readVoice : Rule := fun ahead ↦
  (braced? ahead).map fun body ↦ ⟨bell :: '\x08' :: body ++ [null], body.length + 2⟩

def readRuby : Rule := fun ahead ↦
  (annotated? ahead).map fun (base, gloss) ↦
    ⟨bell :: '\x01' :: base ++ ['\n'] ++ gloss ++ [null], base.length + gloss.length + 4⟩

/-- The control sequences without a body, each with its notation. -/
def markers : List (List Char × List Char) :=
  [([bell, '\x04'], ['[', 'c', ']']),
   ([bell, '\x06'], ['[', 'z', ']']),
   ([bell, '\x09'], ['[', 's', ']']),
   (['\n'], ['[', 'n', ']']),
   (['\r'], ['[', 'r', ']'])]

namespace Message

/-- Spans first, voice before ruby, then the markers in order. -/
def escape (text : List Char) : List Char :=
  markers.foldl (fun text marker ↦ replace marker.1 marker.2 text)
    (substitute writeRuby (substitute writeVoice text))

def unescape (text : List Char) : List Char :=
  markers.foldl (fun text marker ↦ replace marker.2 marker.1 text)
    (substitute readRuby (substitute readVoice text))

end Message

def escapeMessage (text : String) : String := String.ofList (Message.escape text.toList)

def unescapeMessage (text : String) : String := String.ofList (Message.unescape text.toList)

end NovelScript.Markup
