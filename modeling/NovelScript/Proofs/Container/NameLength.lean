import NovelScript.Proofs.Container.Form
import NovelScript.Proofs.Text.Surrogates

/-!
A name is not much longer than its field: each byte of the field stands for at most one character,
and each character is written in at most four bytes.
-/

namespace NovelScript

theorem length_decodeBytes_le {σ : Type} {step : Option σ → UInt8 → List Char × Option σ}
    (hstep : ∀ state b, (step state b).1.length + ((step state b).2.elim 0 fun _ ↦ 1) ≤
      (state.elim 0 fun _ ↦ 1) + 1)
    (state : Option σ) (bytes : List UInt8) :
    (decodeBytes step state bytes).length ≤ bytes.length + (state.elim 0 fun _ ↦ 1) := by
  induction bytes generalizing state with
  | nil => cases state <;> simp [decodeBytes]
  | cons b rest ih =>
    have h := ih (step state b).2
    have hb := hstep state b
    rw [decodeBytes.eq_def]
    cases state <;>
      simp only [List.length_append, List.length_cons, Option.elim] at h hb ⊢ <;> omega

theorem ShiftJis.length_decode_le (bytes : List UInt8) : (decode bytes).length ≤ bytes.length := by
  refine length_decodeBytes_le (fun state b ↦ ?_) none bytes
  cases state with
  | none =>
    rw [step]
    repeat' split
    all_goals simp
  | some lead =>
    rw [step]
    cases char? lead b with
    | some c => simp
    | none => by_cases h : b < 0x80 <;> simp [h]

theorem Utf8.length_start_le (b : UInt8) :
    (start b).1.length + ((start b).2.elim 0 fun _ ↦ 1) ≤ 1 := by
  unfold start
  dsimp only
  repeat' split
  all_goals simp

theorem Utf8.length_decodeLossy_le (bytes : List UInt8) :
    (decodeLossy bytes).length ≤ bytes.length := by
  refine length_decodeBytes_le (fun state b ↦ ?_) none bytes
  have hb := length_start_le b
  cases state with
  | none => exact hb
  | some p =>
    simp only [step]
    split
    · split <;> simp
    · simp only [List.length_cons, Option.elim] at hb ⊢
      omega

theorem Utf16.length_decode_le (us : List UInt16) : (decode us).length ≤ us.length := by
  fun_induction decode us with
  | case1 => simp
  | case2 => simp
  | case3 => simp_all; omega
  | case4 => simp_all

theorem Utf16.length_units_le (bytes : List UInt8) : (units bytes).length ≤ bytes.length := by
  have h := two_mul_length_units bytes
  omega

theorem Narrow.length_unitsOf_lt (bigEndian : Bool) (bytes : List UInt8) :
    2 * (unitsOf bigEndian bytes).length ≤ bytes.length := by
  fun_induction unitsOf bigEndian bytes with
  | case1 a b rest ih =>
    simp only [List.length_cons]
    omega
  | case2 => simp

theorem Narrow.length_decode_le (bytes : List UInt8) : (decode bytes).length ≤ bytes.length := by
  have hu : ∀ bigEndian rest, (decodeUtf16 bigEndian rest).length ≤ rest.length + 1 := by
    intro bigEndian rest
    have hd := Utf16.length_decode_le (unitsOf bigEndian rest)
    have hl := length_unitsOf_lt bigEndian rest
    rw [decodeUtf16, List.length_append]
    split <;> simp only [List.length_singleton, List.length_nil] <;> omega
  fun_cases decode bytes with
  | case1 rest =>
    have h := Utf8.length_decodeLossy_le rest
    simp only [List.length_cons]
    omega
  | case2 rest =>
    have h := hu false rest
    simp only [List.length_cons]
    omega
  | case3 rest =>
    have h := hu true rest
    simp only [List.length_cons]
    omega
  | case4 => exact ShiftJis.length_decode_le bytes

theorem Utf16.length_toBytes_le (text : String) :
    (toBytes text).length ≤ 4 * text.toList.length := by
  rw [toBytes, length_unitBytes, encode]
  induction text.toList with
  | nil => simp
  | cons c rest ih =>
    have hc : (encodeChar c).length ≤ 2 := by
      unfold encodeChar
      split <;> simp
    rw [List.flatMap_cons, List.length_append, List.length_cons]
    omega

/-- The terminator of a field makes room for that of the written name. -/
theorem StringField.length_toBytes_text (f : StringField) (hf : f.Valid) :
    (Utf16.toBytes f.text).length + 4 ≤ 4 * f.body.length := by
  have h := Utf16.length_toBytes_le f.text
  have ht := hf.1
  have hc : f.text.toList.length + 1 ≤ f.body.length := by
    have hl : 1 ≤ f.terminator := by unfold terminator; split <;> decide
    have hn := Narrow.length_decode_le (f.body.take (f.body.length - f.terminator))
    have hd := Utf16.length_decode_le (Utf16.units (f.body.take (f.body.length - f.terminator)))
    have hu := Utf16.length_units_le (f.body.take (f.body.length - f.terminator))
    rw [List.length_take] at hn hu
    unfold text Utf16.ofBytes
    dsimp only
    split <;> rw [String.toList_ofList] <;> omega
  omega

end NovelScript
