import NovelScript.Bytes.Word

/-!
UTF-16 in little-endian bytes. Reading replaces every unpaired surrogate by U+FFFD and drops
an odd last byte; `decode_encode` says that it gives back whatever was written.
-/

namespace NovelScript.Utf16

def replacement : Char := '\uFFFD'

def isHigh (u : UInt16) : Bool := 0xD800 ≤ u && u < 0xDC00

def isLow (u : UInt16) : Bool := 0xDC00 ≤ u && u < 0xE000

/-- The units of one character: itself, or a surrogate pair. -/
def encodeChar (c : Char) : List UInt16 :=
  if c.toNat < 0x10000 then [UInt16.ofNat c.toNat]
  else
    let n := c.toNat - 0x10000
    [UInt16.ofNat (0xD800 + n / 0x400), UInt16.ofNat (0xDC00 + n % 0x400)]

def encode (text : List Char) : List UInt16 := text.flatMap encodeChar

def pair (high low : UInt16) : Char :=
  Char.ofNat (0x10000 + (high.toNat - 0xD800) * 0x400 + (low.toNat - 0xDC00))

/-- A unit that stands alone. -/
def single (u : UInt16) : Char :=
  if isHigh u || isLow u then replacement else Char.ofNat u.toNat

def decode : List UInt16 → List Char
  | [] => []
  | [u] => [single u]
  | u :: v :: rest =>
    if isHigh u && isLow v then pair u v :: decode rest else single u :: decode (v :: rest)

def units : List UInt8 → List UInt16
  | a :: b :: rest => UInt16.ofNat (Bytes.ofLittleEndian [a, b]) :: units rest
  | _ => []

def unitBytes (units : List UInt16) : List UInt8 :=
  units.flatMap fun u ↦ Bytes.littleEndian 2 u.toNat

/-- The bytes of a text, without a mark or a terminator. -/
def toBytes (text : String) : List UInt8 := unitBytes (encode text.toList)

def ofBytes (bytes : List UInt8) : String := String.ofList (decode (units bytes))

theorem units_unitBytes_append (us : List UInt16) (rest : List UInt8) :
    units (unitBytes us ++ rest) = us ++ units rest := by
  induction us with
  | nil => rfl
  | cons u us ih =>
    have hlt : u.toNat < Bytes.capacity 2 := u.toNat_lt
    have hu := Bytes.ofLittleEndian_littleEndian 2 u.toNat
    rw [Nat.mod_eq_of_lt hlt] at hu
    simp only [unitBytes, List.flatMap_cons, Bytes.littleEndian, List.cons_append,
      List.nil_append] at ih hu ⊢
    rw [units, hu, UInt16.ofNat_toNat, ih]

theorem units_unitBytes (us : List UInt16) : units (unitBytes us) = us := by
  simpa only [units, List.append_nil] using units_unitBytes_append us []

theorem length_unitBytes (us : List UInt16) : (unitBytes us).length = 2 * us.length := by
  induction us with
  | nil => rfl
  | cons u us ih =>
    simp only [unitBytes, List.flatMap_cons, List.length_append, Bytes.length_littleEndian,
      List.length_cons] at ih ⊢
    omega

theorem not_surrogate_of_valid {c : Char} (h : c.toNat < 0x10000) :
    isHigh (UInt16.ofNat c.toNat) = false ∧ isLow (UInt16.ofNat c.toNat) = false := by
  have hv : c.toNat < 0xD800 ∨ 0xDFFF < c.toNat ∧ c.toNat < 0x110000 := c.valid
  have hn := UInt16.toNat_ofNat_of_lt' h
  simp only [isHigh, isLow, Bool.and_eq_false_iff, decide_eq_false_iff_not, UInt16.le_iff_toNat_le,
    UInt16.lt_iff_toNat_lt, hn, UInt16.reduceToNat]
  omega

theorem decode_encodeChar_append (c : Char) (us : List UInt16) :
    decode (encodeChar c ++ us) = c :: decode us := by
  by_cases h : c.toNat < 0x10000
  · obtain ⟨hh, hl⟩ := not_surrogate_of_valid h
    have hs : single (UInt16.ofNat c.toNat) = c := by
      simp only [single, hh, hl, Bool.or_self, Bool.false_eq_true, if_false,
        UInt16.toNat_ofNat_of_lt' h, Char.ofNat_toNat]
    simp only [encodeChar, h, if_true, List.cons_append, List.nil_append]
    cases us with
    | nil => simp only [decode, hs]
    | cons v us => simp only [decode, hh, Bool.false_and, Bool.false_eq_true, if_false, hs]
  · have hv : c.toNat < 0xD800 ∨ 0xDFFF < c.toNat ∧ c.toNat < 0x110000 := c.valid
    have hsize : UInt16.size = 65536 := rfl
    have h₁ := UInt16.toNat_ofNat_of_lt' (n := 0xD800 + (c.toNat - 0x10000) / 0x400) (by omega)
    have h₂ := UInt16.toNat_ofNat_of_lt' (n := 0xDC00 + (c.toNat - 0x10000) % 0x400) (by omega)
    have hh : isHigh (UInt16.ofNat (0xD800 + (c.toNat - 0x10000) / 0x400)) = true := by
      simp only [isHigh, Bool.and_eq_true, decide_eq_true_eq, UInt16.le_iff_toNat_le,
        UInt16.lt_iff_toNat_lt, h₁, UInt16.reduceToNat]
      omega
    have hl : isLow (UInt16.ofNat (0xDC00 + (c.toNat - 0x10000) % 0x400)) = true := by
      simp only [isLow, Bool.and_eq_true, decide_eq_true_eq, UInt16.le_iff_toNat_le,
        UInt16.lt_iff_toNat_lt, h₂, UInt16.reduceToNat]
      omega
    simp only [encodeChar, h, if_false, List.cons_append, List.nil_append, decode, hh, hl,
      Bool.and_self, if_true, pair, h₁, h₂]
    have hn : 0x10000 + (0xD800 + (c.toNat - 0x10000) / 0x400 - 0xD800) * 0x400 +
      (0xDC00 + (c.toNat - 0x10000) % 0x400 - 0xDC00) = c.toNat := by omega
    exact congrArg (· :: decode us) ((congrArg Char.ofNat hn).trans (Char.ofNat_toNat c))

theorem decode_encode (text : List Char) : decode (encode text) = text := by
  induction text with
  | nil => rfl
  | cons c text ih => rw [encode, List.flatMap_cons, decode_encodeChar_append]; exact congrArg _ ih

theorem ofBytes_toBytes (text : String) : ofBytes (toBytes text) = text := by
  rw [ofBytes, toBytes, units_unitBytes, decode_encode, String.ofList_toList]

end NovelScript.Utf16
