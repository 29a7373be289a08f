/-!
Numbers as text: upper-case hexadecimal and decimal digits, and the reader of 32-bit words,
which stops at the first character that it cannot take.
-/

namespace NovelScript.Numeral

def hexDigit (n : Nat) : Char :=
  if n < 10 then Char.ofNat (0x30 + n) else Char.ofNat (0x37 + n)

/-- The last `width` hexadecimal digits of a number. -/
def hexDigits : Nat → Nat → List Char
  | 0, _ => []
  | width + 1, n => hexDigits width (n / 16) ++ [hexDigit (n % 16)]

def hexPadded (width n : Nat) : String := String.ofList (hexDigits width n)

def hex (n : Nat) : String := String.ofList ((Nat.toDigits 16 n).map Char.toUpper)

def decimal (n : Nat) : String := String.ofList (Nat.toDigits 10 n)

def signed (n : Int) : String :=
  if n < 0 then "-" ++ decimal n.natAbs else decimal n.toNat

def address (n : Nat) : String := "0x" ++ hexPadded 8 n

inductive ReadError where
  | empty
  | invalidDigit
  | tooLarge
  deriving DecidableEq, Repr

def ReadError.message : ReadError → String
  | empty => "cannot parse integer from empty string"
  | invalidDigit => "invalid digit found in string"
  | tooLarge => "number too large to fit in target type"

def hexValue? (c : Char) : Option Nat :=
  if '0' ≤ c ∧ c ≤ '9' then some (c.toNat - 0x30)
  else if 'A' ≤ c ∧ c ≤ 'F' then some (c.toNat - 0x37)
  else if 'a' ≤ c ∧ c ≤ 'f' then some (c.toNat - 0x57)
  else none

inductive Radix where
  | ten
  | sixteen
  deriving DecidableEq, Repr

def Radix.base : Radix → Nat
  | ten => 10
  | sixteen => 16

def Radix.value? (radix : Radix) (c : Char) : Option Nat :=
  (hexValue? c).filter (· < radix.base)

def readDigits (radix : Radix) (value : Nat) : List Char → Except ReadError Nat
  | [] => .ok value
  | c :: rest =>
    match radix.value? c with
    | none => .error .invalidDigit
    | some d =>
      let next := value * radix.base + d
      if next < UInt32.size then readDigits radix next rest else .error .tooLarge

/-- One leading plus sign is allowed if a digit follows. -/
def readWord (radix : Radix) (text : List Char) : Except ReadError UInt32 :=
  match text with
  | [] => .error .empty
  | ['+'] => .error .invalidDigit
  | '+' :: digits => (readDigits radix 0 digits).map UInt32.ofNat
  | digits => (readDigits radix 0 digits).map UInt32.ofNat

end NovelScript.Numeral
