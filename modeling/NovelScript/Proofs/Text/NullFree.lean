import NovelScript.Container.Text
import NovelScript.Proofs.Text.Surrogates

/-!
Texts without U+0000. A string ends at its first zero unit, so such a text is read back from its
units, and what is read is always such a text.
-/

namespace NovelScript

def NullFree (text : List Char) : Prop := '\x00' ∉ text

instance : DecidablePred NullFree := fun _ ↦ instDecidableNot

theorem nullFree_cons_iff {c : Char} {text : List Char} :
    NullFree (c :: text) ↔ c ≠ '\x00' ∧ NullFree text := by
  rw [NullFree, List.mem_cons, not_or, ne_comm]
  rfl

namespace Utf16

theorem encodeChar_ne_zero {c : Char} (h : c ≠ '\x00') : ∀ u ∈ encodeChar c, u ≠ 0 := by
  have hv : c.toNat < 0xD800 ∨ 0xDFFF < c.toNat ∧ c.toNat < 0x110000 := c.valid
  have hc : c.toNat ≠ 0 := fun hn ↦ h (Char.toNat_inj.1 hn)
  have hne : ∀ n, n ≠ 0 → n < 65536 → UInt16.ofNat n ≠ 0 := by
    intro n hn hlt he
    rw [← UInt16.toNat_inj, UInt16.toNat_ofNat_of_lt' hlt] at he
    exact hn he
  intro u hu
  unfold encodeChar at hu
  split at hu
  · rename_i hlt
    rw [List.mem_singleton.1 hu]
    exact hne _ hc hlt
  · simp only [List.mem_cons, List.not_mem_nil, or_false] at hu
    rcases hu with rfl | rfl
    · exact hne _ (by omega) (by omega)
    · exact hne _ (by omega) (by omega)

theorem encode_ne_zero {text : List Char} (h : NullFree text) : ∀ u ∈ encode text, u ≠ 0 := by
  intro u hu
  obtain ⟨c, hc, hu⟩ := List.mem_flatMap.1 hu
  exact encodeChar_ne_zero (fun h0 ↦ h (h0 ▸ hc)) u hu

theorem single_ne_null {u : UInt16} (h : u ≠ 0) : single u ≠ '\x00' := by
  cases hs : isHigh u || isLow u with
  | true =>
    rw [single, if_pos hs]
    decide
  | false =>
    obtain ⟨hh, hl⟩ := Bool.or_eq_false_iff.1 hs
    intro he
    have hn := toNat_single hh hl
    rw [he] at hn
    exact h (UInt16.toNat_inj.1 hn.symm)

theorem pair_ne_null {u v : UInt16} (h : isHigh u && isLow v) : pair u v ≠ '\x00' := by
  intro he
  obtain ⟨hn, -⟩ := toNat_pair h
  rw [he] at hn
  have hzero : '\x00'.toNat = 0 := rfl
  omega

theorem nullFree_decode {us : List UInt16} (h : ∀ u ∈ us, u ≠ 0) : NullFree (decode us) := by
  fun_induction decode us with
  | case1 => exact List.not_mem_nil
  | case2 u => exact nullFree_cons_iff.2 ⟨single_ne_null (h u (by simp)), List.not_mem_nil⟩
  | case3 u v rest hp ih =>
    exact nullFree_cons_iff.2 ⟨pair_ne_null hp, ih fun w hw ↦ h w (by simp [hw])⟩
  | case4 u v rest hp ih =>
    have hrest := ih fun w hw ↦ h w (List.mem_cons_of_mem _ hw)
    exact nullFree_cons_iff.2 ⟨single_ne_null (h u (by simp)), hrest⟩

end Utf16

namespace Container

variable (c : Container)

theorem nullFree_stringAt (offset : UInt32) : NullFree (c.stringAt offset).toList := by
  rw [stringAt, String.toList_ofList, stringUnits_eq_takeWhile]
  apply Utf16.nullFree_decode
  intro u hu
  simpa using List.all_eq_true.1 List.all_takeWhile u hu

/-- A text that is followed by a zero unit is the string at its offset. -/
theorem stringAt_of_drop {offset : UInt32} {text : String} {rest : List UInt8}
    (h : NullFree text.toList)
    (hd : c.strings.toList.drop offset.toNat = Utf16.toBytes text ++ ([0, 0] ++ rest)) :
    c.stringAt offset = text := by
  have hne := Utf16.encode_ne_zero h
  have hzero : Utf16.units ([0, 0] ++ rest) = 0 :: Utf16.units rest := rfl
  rw [stringAt, stringUnits_eq_takeWhile, hd, Utf16.toBytes, Utf16.units_unitBytes_append, hzero,
    List.takeWhile_append_of_pos (by simpa using hne), List.takeWhile_cons_of_neg (by simp),
    List.append_nil, Utf16.decode_encode, String.ofList_toList]

end Container

end NovelScript
