import NovelScript.Bytes.Word
import NovelScript.Text.Numeral

/-!
Numerals are read back. A numeral grows at its end, digit by digit, and so does the number that is
read from it (`readDigits_eq_ok_iff`).
-/

namespace NovelScript.Numeral

theorem readDigits_append {radix : Radix} {digits : List Char} {start value d : Nat} {c : Char}
    (h : readDigits radix start digits = .ok value) (hc : radix.value? c = some d)
    (hlt : value * radix.base + d < UInt32.size) :
    readDigits radix start (digits ++ [c]) = .ok (value * radix.base + d) := by
  induction digits generalizing start with
  | nil =>
    cases h
    simp [readDigits, hc, hlt]
  | cons b later ih =>
    rw [readDigits] at h
    rw [List.cons_append, readDigits]
    cases hb : radix.value? b with
    | none => simp [hb] at h
    | some e =>
      simp only [hb] at h ⊢
      split at h
      · rename_i hnext
        rw [if_pos hnext]
        exact ih h
      · cases h

/-- One or more digits and the number they stand for. Zeros in front do not matter, nor does the case
of a letter. -/
inductive Denotes (radix : Radix) : List Char → Nat → Prop
  | digit {c : Char} {d : Nat} (h : radix.value? c = some d) : Denotes radix [c] d
  | concat {digits : List Char} {n : Nat} {c : Char} {d : Nat} (h : Denotes radix digits n)
      (hc : radix.value? c = some d) : Denotes radix (digits ++ [c]) (n * radix.base + d)

theorem Denotes.isSome {radix : Radix} {digits : List Char} {n : Nat} (h : Denotes radix digits n) :
    digits ≠ [] ∧ ∀ c ∈ digits, (radix.value? c).isSome := by
  induction h with
  | digit h => simp [h]
  | concat h hc ih =>
    refine ⟨by simp, fun c hmem ↦ ?_⟩
    obtain hmem | hmem := List.mem_append.1 hmem
    · exact ih.2 c hmem
    · rw [List.mem_singleton.1 hmem, hc]
      rfl

theorem Denotes.not_mem {radix : Radix} {digits : List Char} {n : Nat} (h : Denotes radix digits n)
    {c : Char} (hc : hexValue? c = none) : c ∉ digits := by
  intro hm
  have hsome := h.isSome.2 c hm
  rw [Radix.value?, hc] at hsome
  cases hsome

theorem Denotes.readDigits {radix : Radix} {digits : List Char} {n : Nat}
    (h : Denotes radix digits n) (hlt : n < UInt32.size) : readDigits radix 0 digits = .ok n := by
  have hempty : Numeral.readDigits radix 0 [] = .ok 0 := rfl
  induction h with
  | digit h =>
    have hlast := readDigits_append hempty h
    rw [Nat.zero_mul, Nat.zero_add] at hlast
    exact hlast hlt
  | @concat digits n c d h hc ih =>
    have hle : n ≤ n * radix.base := Nat.le_mul_of_pos_right n (by cases radix <;> decide)
    exact readDigits_append (ih (by omega)) hc hlt

/-- Digits that are read behind others go on with their number. -/
theorem denotes_of_readDigits {radix : Radix} {front digits : List Char} {start n : Nat}
    (hfront : Denotes radix front start) (hstart : start < UInt32.size)
    (h : readDigits radix start digits = .ok n) :
    Denotes radix (front ++ digits) n ∧ n < UInt32.size := by
  induction digits generalizing front start with
  | nil =>
    cases h
    rw [List.append_nil]
    exact ⟨hfront, hstart⟩
  | cons c later ih =>
    rw [readDigits] at h
    cases hc : radix.value? c with
    | none => simp [hc] at h
    | some d =>
      simp only [hc] at h
      split at h
      · rename_i hnext
        have hlater := ih (hfront.concat hc) hnext h
        rwa [List.append_assoc] at hlater
      · cases h

/-- Reading digits gives their number, as long as that fits a word. -/
theorem readDigits_eq_ok_iff {radix : Radix} {digits : List Char} (hne : digits ≠ []) {n : Nat} :
    readDigits radix 0 digits = .ok n ↔ Denotes radix digits n ∧ n < UInt32.size := by
  constructor
  · intro h
    cases digits with
    | nil => exact absurd rfl hne
    | cons c later =>
      rw [readDigits] at h
      cases hc : radix.value? c with
      | none => simp [hc] at h
      | some d =>
        simp only [hc, Nat.zero_mul, Nat.zero_add] at h
        split at h
        · rename_i hd
          exact denotes_of_readDigits (.digit hc) hd h
        · cases h
  · intro h
    obtain ⟨hdenotes, hlt⟩ := h
    exact hdenotes.readDigits hlt

/-- What does not start with a sign is read digit by digit. -/
theorem readWord_eq {radix : Radix} {text : List Char} (hne : text ≠ []) (hsign : '+' ∉ text) :
    readWord radix text = (readDigits radix 0 text).map UInt32.ofNat := by
  unfold readWord
  split
  · exact absurd rfl hne
  · exact absurd List.mem_cons_self hsign
  · exact absurd List.mem_cons_self hsign
  · rfl

theorem Denotes.readWord {radix : Radix} {digits : List Char} {word : UInt32}
    (h : Denotes radix digits word.toNat) : readWord radix digits = .ok word := by
  rw [readWord_eq h.isSome.1 (h.not_mem (by decide)), h.readDigits word.toNat_lt]
  exact congrArg Except.ok UInt32.ofNat_toNat

theorem value?_ten_digitChar {n : Nat} (h : n < 10) : Radix.ten.value? n.digitChar = some n := by
  revert n
  decide

theorem denotes_toDigits (n : Nat) : Denotes .ten (Nat.toDigits 10 n) n := by
  induction n using Nat.strongRecOn with
  | ind n ih =>
    rw [Nat.toDigits_eq_if (by decide)]
    split
    · rename_i hn
      exact .digit (value?_ten_digitChar hn)
    · rename_i hn
      have hvalue : n / 10 * Radix.ten.base + n % 10 = n := Nat.div_add_mod' n 10
      have hlast := (ih (n / 10) (by omega)).concat (value?_ten_digitChar (n := n % 10) (by omega))
      rwa [hvalue] at hlast

theorem isDigit_of_mem_toDigits {n : Nat} {c : Char} (h : c ∈ Nat.toDigits 10 n) :
    c.isDigit = true :=
  Nat.isDigit_of_mem_toDigits (by decide) (by decide) h

theorem value?_sixteen_hexDigit {n : Nat} (h : n < 16) :
    Radix.sixteen.value? (hexDigit n) = some n := by
  revert n
  decide

theorem length_hexDigits (width n : Nat) : (hexDigits width n).length = width := by
  induction width generalizing n with
  | zero => rfl
  | succ width ih => rw [hexDigits, List.length_append, ih, List.length_singleton]

/-- Two digits for each byte give a number back. -/
theorem readDigits_hexDigits {size n : Nat} (h : n < Bytes.capacity size)
    (hlt : n < UInt32.size) : readDigits .sixteen 0 (hexDigits (2 * size) n) = .ok n := by
  induction size generalizing n with
  | zero =>
    obtain rfl : n = 0 := Nat.lt_one_iff.1 h
    rfl
  | succ size ih =>
    have hdigit : ∀ m, Radix.sixteen.value? (hexDigit (m % 16)) = some (m % 16) :=
      fun m ↦ value?_sixteen_hexDigit (by omega)
    have hvalue : ∀ m, m / 16 * Radix.sixteen.base + m % 16 = m := fun m ↦ Nat.div_add_mod' m 16
    rw [Bytes.capacity] at h
    have hfront := ih (n := n / 16 / 16) (by omega) (by omega)
    have hhigh := readDigits_append hfront (hdigit (n / 16))
    rw [hvalue] at hhigh
    have hlow := readDigits_append (hhigh (by omega)) (hdigit n)
    rw [hvalue] at hlow
    rw [Nat.mul_succ, hexDigits, hexDigits]
    exact hlow hlt

theorem denotes_hexDigits (word : UInt32) : Denotes .sixteen (hexDigits 8 word.toNat) word.toNat := by
  have hne : hexDigits 8 word.toNat ≠ [] := fun he ↦ by
    have hl := length_hexDigits 8 word.toNat
    rw [he] at hl
    cases hl
  have hread : readDigits .sixteen 0 (hexDigits 8 word.toNat) = .ok word.toNat :=
    @readDigits_hexDigits 4 word.toNat word.toNat_lt word.toNat_lt
  exact ((readDigits_eq_ok_iff hne).1 hread).1

end NovelScript.Numeral
