import NovelScript.Text.Utf16

/-!
UTF-16 that is read without loss. Units in which every surrogate has its partner are those of the
text that they are read as (`encode_decode`), and the same holds of bytes (`toBytes_ofBytes`). No
other units are those of a text (`isPaired_encode`).
-/

namespace NovelScript.Utf16

/-- No surrogate stands alone. -/
def isPaired : List UInt16 → Bool
  | [] => true
  | [u] => !isHigh u && !isLow u
  | u :: v :: rest =>
    if isHigh u && isLow v then isPaired rest else !isHigh u && !isLow u && isPaired (v :: rest)

theorem toNat_ofNat {n : Nat} (hv : n.isValidChar) : (Char.ofNat n).toNat = n := by
  rw [Char.ofNat, dif_pos hv]
  change (UInt32.ofNatLT n _).toNat = n
  exact UInt32.toNat_ofNatLT

theorem toNat_single {u : UInt16} (hh : isHigh u = false) (hl : isLow u = false) :
    (single u).toNat = u.toNat := by
  have hlt := u.toNat_lt
  rw [single, hh, hl, Bool.or_self, if_neg Bool.false_ne_true]
  apply toNat_ofNat
  simp only [isHigh, isLow, Bool.and_eq_false_iff, decide_eq_false_iff_not, UInt16.le_iff_toNat_le,
    UInt16.lt_iff_toNat_lt, UInt16.reduceToNat] at hh hl
  unfold Nat.isValidChar
  omega

theorem toNat_pair {u v : UInt16} (h : (isHigh u && isLow v) = true) :
    (pair u v).toNat = 0x10000 + (u.toNat - 0xD800) * 0x400 + (v.toNat - 0xDC00) ∧
      0xD800 ≤ u.toNat ∧ u.toNat < 0xDC00 ∧ 0xDC00 ≤ v.toNat ∧ v.toNat < 0xE000 := by
  simp only [isHigh, isLow, Bool.and_eq_true, decide_eq_true_eq, UInt16.le_iff_toNat_le,
    UInt16.lt_iff_toNat_lt, UInt16.reduceToNat] at h
  refine ⟨toNat_ofNat ?_, by omega⟩
  unfold Nat.isValidChar
  omega

theorem encodeChar_single {u : UInt16} (hh : isHigh u = false) (hl : isLow u = false) :
    encodeChar (single u) = [u] := by
  rw [encodeChar, toNat_single hh hl, if_pos u.toNat_lt, UInt16.ofNat_toNat]

theorem encodeChar_pair {u v : UInt16} (h : (isHigh u && isLow v) = true) :
    encodeChar (pair u v) = [u, v] := by
  obtain ⟨hn, hu, hu', hv, hv'⟩ := toNat_pair h
  have hhigh : 0xD800 + ((pair u v).toNat - 0x10000) / 0x400 = u.toNat := by omega
  have hlow : 0xDC00 + ((pair u v).toNat - 0x10000) % 0x400 = v.toNat := by omega
  rw [encodeChar, if_neg (by omega)]
  dsimp only
  rw [hhigh, hlow, UInt16.ofNat_toNat, UInt16.ofNat_toNat]

theorem encode_decode {us : List UInt16} (h : isPaired us = true) : encode (decode us) = us := by
  fun_induction decode us with
  | case1 => rfl
  | case2 u =>
    simp only [isPaired, Bool.and_eq_true, Bool.not_eq_true'] at h
    rw [encode, List.flatMap_singleton, encodeChar_single h.1 h.2]
  | case3 u v rest hp ih =>
    rw [isPaired, if_pos hp] at h
    rw [encode, List.flatMap_cons, encodeChar_pair hp]
    exact congrArg ([u, v] ++ ·) (ih h)
  | case4 u v rest hp ih =>
    rw [isPaired, if_neg hp, Bool.and_eq_true, Bool.and_eq_true, Bool.not_eq_true',
      Bool.not_eq_true'] at h
    obtain ⟨⟨hh, hl⟩, hrest⟩ := h
    rw [encode, List.flatMap_cons, encodeChar_single hh hl]
    exact congrArg (u :: ·) (ih hrest)

/-- What replaces a surrogate that stands alone is written as another unit. -/
theorem alone_of_encodeChar_single {u : UInt16} {written rest : List UInt16}
    (h : encodeChar (single u) ++ written = u :: rest) : isHigh u = false ∧ isLow u = false := by
  rw [← Bool.or_eq_false_iff, Bool.eq_false_iff]
  intro hs
  have hreplaced : encodeChar (single u) = [0xFFFD] := by
    rw [single, if_pos hs]
    rfl
  rw [hreplaced] at h
  obtain rfl := (List.cons.inj h).1
  exact absurd hs (by decide)

theorem isPaired_of_encode_decode {us : List UInt16} (h : encode (decode us) = us) :
    isPaired us = true := by
  fun_induction decode us with
  | case1 => rfl
  | case2 u =>
    obtain ⟨hh, hl⟩ := alone_of_encodeChar_single h
    rw [isPaired, hh, hl]
    rfl
  | case3 u v rest hp ih =>
    rw [encode, List.flatMap_cons, encodeChar_pair hp] at h
    rw [isPaired, if_pos hp]
    exact ih (List.append_cancel_left h)
  | case4 u v rest hp ih =>
    obtain ⟨hh, hl⟩ := alone_of_encodeChar_single h
    rw [encode, List.flatMap_cons, encodeChar_single hh hl] at h
    rw [isPaired, if_neg hp, hh, hl, ih (List.cons.inj h).2]
    rfl

theorem isPaired_encode (text : List Char) : isPaired (encode text) = true :=
  isPaired_of_encode_decode (by rw [decode_encode])

/-- Taking a zero unit off the end leaves pairs whole. -/
theorem isPaired_of_concat_zero {us : List UInt16} (h : isPaired (us ++ [0]) = true) :
    isPaired us = true := by
  fun_induction isPaired us with
  | case1 => rfl
  | case2 u =>
    have hpair : ¬(isHigh u && isLow 0) = true := by
      rw [Bool.and_eq_true]
      exact fun hn ↦ Bool.false_ne_true hn.2
    rw [List.singleton_append, isPaired, if_neg hpair, Bool.and_eq_true] at h
    exact h.1
  | case3 u v rest hp ih =>
    rw [List.cons_append, List.cons_append, isPaired, if_pos hp] at h
    exact ih h
  | case4 u v rest hp ih =>
    rw [List.cons_append, List.cons_append, isPaired, if_neg hp, Bool.and_eq_true] at h
    rw [Bool.and_eq_true]
    exact ⟨h.1, ih h.2⟩

theorem unitBytes_units : ∀ {bytes : List UInt8}, bytes.length % 2 = 0 →
    unitBytes (units bytes) = bytes
  | [], _ => rfl
  | [_], h => by simp at h
  | a :: b :: rest, h => by
    have hunit :
        Bytes.littleEndian 2 (UInt16.ofNat (Bytes.ofLittleEndian [a, b])).toNat = [a, b] := by
      rw [UInt16.toNat_ofNat_of_lt' (Bytes.ofLittleEndian_lt [a, b])]
      exact Bytes.littleEndian_ofLittleEndian [a, b]
    have hrest : rest.length % 2 = 0 := by
      simp only [List.length_cons] at h
      omega
    rw [units, unitBytes, List.flatMap_cons, hunit]
    exact congrArg ([a, b] ++ ·) (unitBytes_units hrest)

/-- Two bytes for each unit, and an odd last byte. -/
theorem two_mul_length_units (bytes : List UInt8) :
    2 * (units bytes).length + bytes.length % 2 = bytes.length := by
  fun_induction units bytes with
  | case1 a b rest ih =>
    simp only [List.length_cons]
    omega
  | case2 bytes h =>
    match bytes with
    | [] | [_] => rfl
    | a :: b :: rest => exact absurd rfl (h a b rest)

theorem toBytes_ofBytes {bytes : List UInt8} (h : bytes.length % 2 = 0)
    (hp : isPaired (units bytes) = true) : toBytes (ofBytes bytes) = bytes := by
  rw [toBytes, ofBytes, String.toList_ofList, encode_decode hp, unitBytes_units h]

end NovelScript.Utf16
