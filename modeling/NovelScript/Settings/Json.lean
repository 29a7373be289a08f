import NovelScript.Text.Utf16

/-!
JSON values. Strings and keys are kept as UTF-16 units, since an escape can give half of a surrogate pair.
Numbers are read, but their value is of no use here.
-/

namespace NovelScript

inductive Json where
  | null
  | bool (value : Bool)
  | number
  | string (units : List UInt16)
  | array (items : List Json)
  | object (members : List (List UInt16 × Json))

namespace Json

/-- The text of a string, if every surrogate in it is paired. -/
def text? (units : List UInt16) : Option String :=
  let text := Utf16.decode units
  if Utf16.encode text = units then some (String.ofList text) else none

def isBlank (c : Char) : Bool := c == ' ' || c == '\n' || c == '\t' || c == '\r'

def skip (input : List Char) : List Char := input.dropWhile isBlank

def hexUnit? (digits : List Char) : Option UInt16 :=
  (digits.mapM fun c ↦
    if '0' ≤ c ∧ c ≤ '9' then some (c.toNat - 0x30)
    else if 'A' ≤ c ∧ c ≤ 'F' then some (c.toNat - 0x37)
    else if 'a' ≤ c ∧ c ≤ 'f' then some (c.toNat - 0x57)
    else none).map fun values ↦ UInt16.ofNat (values.foldl (16 * · + ·) 0)

def escaped? (c : Char) : Option Char :=
  [('"', '"'), ('\\', '\\'), ('/', '/'), ('b', '\x08'), ('f', '\x0C'), ('n', '\n'), ('r', '\r'),
    ('t', '\t')].lookup c

/-- The units of a string and what follows its closing quote. -/
def string? : List Char → Option (List UInt16 × List Char)
  | [] => none
  | '"' :: rest => some ([], rest)
  | '\\' :: 'u' :: a :: b :: c :: d :: rest => do
    let unit ← hexUnit? [a, b, c, d]
    let (units, after) ← string? rest
    return (unit :: units, after)
  | '\\' :: c :: rest => do
    let c ← escaped? c
    let (units, after) ← string? rest
    return (Utf16.encodeChar c ++ units, after)
  | c :: rest => do
    guard (0x20 ≤ c.toNat)
    let (units, after) ← string? rest
    return (Utf16.encodeChar c ++ units, after)

def digits? (input : List Char) : Option (List Char) :=
  match input with
  | c :: _ => if c.isDigit then some (input.dropWhile Char.isDigit) else none
  | [] => none

/-- What follows a number. A leading zero stands alone. -/
def number? (input : List Char) : Option (List Char) := do
  let unsigned := match input with
    | '-' :: rest => rest
    | rest => rest
  let whole ← match unsigned with
    | '0' :: rest => some rest
    | rest => digits? rest
  let fraction ← match whole with
    | '.' :: rest => digits? rest
    | rest => some rest
  match fraction with
  | 'e' :: rest | 'E' :: rest =>
    match rest with
    | '+' :: rest | '-' :: rest => digits? rest
    | rest => digits? rest
  | rest => some rest

mutual

/-- A value and what follows it. The fuel bounds the number of steps. -/
def value? (fuel : Nat) (input : List Char) : Option (Json × List Char) :=
  match fuel with
  | 0 => none
  | fuel + 1 =>
    match skip input with
    | '[' :: rest =>
      match skip rest with
      | ']' :: rest => some (.array [], rest)
      | rest => (items? fuel rest).map fun (items, rest) ↦ (.array items, rest)
    | '\x7b' :: rest =>
      match skip rest with
      | '\x7d' :: rest => some (.object [], rest)
      | rest => (members? fuel rest).map fun (members, rest) ↦ (.object members, rest)
    | '"' :: rest => (string? rest).map fun (units, rest) ↦ (.string units, rest)
    | 'n' :: 'u' :: 'l' :: 'l' :: rest => some (.null, rest)
    | 't' :: 'r' :: 'u' :: 'e' :: rest => some (.bool true, rest)
    | 'f' :: 'a' :: 'l' :: 's' :: 'e' :: rest => some (.bool false, rest)
    | rest => (number? rest).map fun rest ↦ (.number, rest)

def items? (fuel : Nat) (input : List Char) : Option (List Json × List Char) :=
  match fuel with
  | 0 => none
  | fuel + 1 =>
    match value? fuel input with
    | none => none
    | some (item, rest) =>
      match skip rest with
      | ']' :: rest => some ([item], rest)
      | ',' :: rest => (items? fuel rest).map fun (items, rest) ↦ (item :: items, rest)
      | _ => none

def members? (fuel : Nat) (input : List Char) : Option (List (List UInt16 × Json) × List Char) :=
  match fuel with
  | 0 => none
  | fuel + 1 =>
    match skip input with
    | '"' :: rest =>
      match string? rest with
      | none => none
      | some (key, rest) =>
        match skip rest with
        | ':' :: rest =>
          match value? fuel rest with
          | none => none
          | some (value, rest) =>
            match skip rest with
            | '\x7d' :: rest => some ([(key, value)], rest)
            | ',' :: rest =>
              (members? fuel rest).map fun (members, rest) ↦ ((key, value) :: members, rest)
            | _ => none
        | _ => none
    | _ => none

end

/-- The value that makes up a text. Every step but the first passes over a character. -/
def parse? (text : String) : Option Json :=
  let input := text.toList
  match value? (2 * input.length + 2) input with
  | some (value, rest) => if (skip rest).isEmpty then some value else none
  | none => none

end Json

end NovelScript
