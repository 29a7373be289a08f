import NovelScript.Container.Basic
import NovelScript.Text.Utf16

/-!
The texts inside a container: strings end at a zero unit, messages at a length of their own.
-/

namespace NovelScript

/-- The units from a position on, `count` of them or as many as stand before a zero unit. -/
def unitsToZero (bytes : Array UInt8) : Nat → Nat → List UInt16
  | 0, _ => []
  | count + 1, start =>
    let unit := UInt16.ofNat (Bytes.ofLittleEndian [bytes[start]?.getD 0, bytes[start + 1]?.getD 0])
    if unit = 0 then [] else unit :: unitsToZero bytes count (start + 2)

/-- The whole units after a position, up to the first zero unit. -/
def stringUnits (bytes : Array UInt8) (start : Nat) : List UInt16 :=
  unitsToZero bytes ((bytes.size - start) / 2) start

theorem stringUnits_eq_takeWhile (bytes : Array UInt8) (start : Nat) :
    stringUnits bytes start = (Utf16.units (bytes.toList.drop start)).takeWhile (· ≠ 0) := by
  rw [stringUnits]
  generalize hn : (bytes.size - start) / 2 = count
  induction count generalizing start with
  | zero =>
    have hl : (bytes.toList.drop start).length < 2 := by
      rw [List.length_drop, Array.length_toList]
      omega
    match h : bytes.toList.drop start with
    | [] | [_] => rfl
    | _ :: _ :: _ => rw [h] at hl; simp only [List.length_cons] at hl; omega
  | succ count ih =>
    have h₀ : start < bytes.toList.length := by rw [Array.length_toList]; omega
    have h₁ : start + 1 < bytes.toList.length := by rw [Array.length_toList]; omega
    rw [List.drop_eq_getElem_cons h₀, List.drop_eq_getElem_cons h₁, Utf16.units, unitsToZero,
      ih (start + 2) (by omega)]
    have g₀ : bytes[start]? = some bytes.toList[start] := by
      rw [← Array.getElem?_toList, List.getElem?_eq_getElem h₀]
    have g₁ : bytes[start + 1]? = some bytes.toList[start + 1] := by
      rw [← Array.getElem?_toList, List.getElem?_eq_getElem h₁]
    rw [g₀, g₁, List.takeWhile_cons]
    simp only [Option.getD_some]
    generalize UInt16.ofNat (Bytes.ofLittleEndian [_, _]) = unit
    by_cases h : unit = 0 <;> simp [h]

/-- Whether a voice or ruby span is open after these units. A span opens at unit 7 before
unit 8 or unit 1 and closes at the next zero unit. -/
def spanOpenAfter (isOpen : Bool) : List UInt16 → Bool
  | [] => isOpen
  | u :: rest =>
    spanOpenAfter (if isOpen then u ≠ 0 else u = 7 ∧ (rest.head? = some 8 ∨ rest.head? = some 1))
      rest

/-- Whether the last unit is a zero unit that closes no span. -/
def endsInTerminator (bytes : List UInt8) : Bool :=
  let units := Utf16.units bytes
  bytes.length % 2 == 0 && units.getLast? == some 0 && !spanOpenAfter false units.dropLast

namespace Container

variable (c : Container)

def stringAt (offset : UInt32) : String :=
  String.ofList (Utf16.decode (stringUnits c.strings offset.toNat))

/-- The bytes of an entry, if it lies inside the message segment. -/
def entryBytes? (entry : MessageEntry) : Option (List UInt8) :=
  let start := entry.offset.toNat
  let length := entry.length.toNat
  if start + length ≤ c.messageData.size then
    some (c.messageData.extract start (start + length)).toList
  else none

/-- The text of an entry without its terminator. -/
def entryText? (entry : MessageEntry) : Option String :=
  (c.entryBytes? entry).map fun bytes ↦
    Utf16.ofBytes (if endsInTerminator bytes then bytes.take (bytes.length - 2) else bytes)

def entryTerminated (entry : MessageEntry) : Bool :=
  (c.entryBytes? entry).any endsInTerminator

def messageText? (index : UInt32) : Option String :=
  c.messages[index.toNat]?.bind c.entryText?

def messageTerminated (index : UInt32) : Bool :=
  c.messages[index.toNat]?.any c.entryTerminated

end Container

end NovelScript
