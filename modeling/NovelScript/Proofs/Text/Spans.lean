import NovelScript.Container.Text
import NovelScript.Proofs.Text.Surrogates

/-!
The terminator of a message. Whether one ends its bytes depends only on where a few control units
stand (`spanOpenAfter_congr`), and these are kept when a message is read and written again, even
where surrogates are replaced. So a message that is written again with the text it had reads the
same as before, unless a single byte at its end hides a terminator (`rewritten_iff`).
-/

namespace NovelScript

open Utf16

/-- The units of a character tell control characters from all others. -/
theorem Utf16.encodeChar_cases (c : Char) :
    (∃ u, encodeChar c = [u] ∧ u.toNat = c.toNat) ∨
      ∃ u v, encodeChar c = [u, v] ∧ 0xD800 ≤ u.toNat ∧ 0xD800 ≤ v.toNat ∧
        0x10000 ≤ c.toNat := by
  have hvalid : c.toNat < 0xD800 ∨ 0xDFFF < c.toNat ∧ c.toNat < 0x110000 := c.valid
  have hsize : UInt16.size = 65536 := rfl
  unfold encodeChar
  split
  · rename_i hlt
    exact .inl ⟨_, rfl, UInt16.toNat_ofNat_of_lt' hlt⟩
  · refine .inr ⟨_, _, rfl, ?_, ?_, by omega⟩
    · rw [UInt16.toNat_ofNat_of_lt' (by omega)]
      omega
    · rw [UInt16.toNat_ofNat_of_lt' (by omega)]
      omega

theorem Utf16.head?_encode {text : List Char} {u : UInt16} (hu : u.toNat < 0xD800)
    (h : (encode text).head? = some u) : text.head? = some (Char.ofNat u.toNat) := by
  cases text with
  | nil => cases h
  | cons c rest =>
    rw [encode, List.flatMap_cons] at h
    obtain ⟨v, hv, hn⟩ | ⟨v, w, hv, hhigh, -⟩ := encodeChar_cases c
    · rw [hv] at h
      obtain rfl := Option.some.inj h
      rw [List.head?_cons, hn, Char.ofNat_toNat]
    · rw [hv] at h
      obtain rfl := Option.some.inj h
      omega

/-- The units that spans and terminators are made of. -/
def control? (u : UInt16) : Option UInt16 := if u ∈ [0, 1, 7, 8] then some u else none

theorem control?_eq_some_iff {u k : UInt16} (hk : k ∈ [0, 1, 7, 8]) :
    control? u = some k ↔ u = k := by
  unfold control?
  split
  · exact Option.some_inj
  · rename_i hu
    exact ⟨fun h ↦ (by cases h), fun h ↦ absurd (h ▸ hk) hu⟩

theorem eq_iff_of_control?_eq {u v k : UInt16} (h : control? u = control? v)
    (hk : k ∈ [0, 1, 7, 8]) : u = k ↔ v = k := by
  rw [← control?_eq_some_iff hk, h, control?_eq_some_iff hk]

theorem control?_surrogate {u : UInt16} (h : (isHigh u || isLow u) = true) :
    control? u = none := by
  refine if_neg fun hu ↦ ?_
  simp only [List.mem_cons, List.not_mem_nil, or_false] at hu
  obtain rfl | rfl | rfl | rfl := hu <;> cases h

variable {us vs : List UInt16}

theorem head?_eq_iff_of_map_control?_eq (h : us.map control? = vs.map control?) {k : UInt16}
    (hk : k ∈ [0, 1, 7, 8]) : us.head? = some k ↔ vs.head? = some k := by
  have hhead := congrArg List.head? h
  rw [List.head?_map, List.head?_map] at hhead
  cases us with
  | nil =>
    cases vs with
    | nil => rfl
    | cons v vs => cases hhead
  | cons u us =>
    cases vs with
    | nil => cases hhead
    | cons v vs =>
      rw [List.head?_cons, List.head?_cons, Option.some_inj, Option.some_inj]
      exact eq_iff_of_control?_eq (Option.some.inj hhead) hk

/-- Only control units open and close spans. -/
theorem spanOpenAfter_congr (h : us.map control? = vs.map control?) (isOpen : Bool) :
    spanOpenAfter isOpen us = spanOpenAfter isOpen vs := by
  induction us generalizing vs isOpen with
  | nil =>
    cases vs with
    | nil => rfl
    | cons v vs => cases h
  | cons u us ih =>
    cases vs with
    | nil => cases h
    | cons v vs =>
      obtain ⟨hu, hus⟩ := List.cons.inj h
      have hnull : u = 0 ↔ v = 0 := eq_iff_of_control?_eq hu (by decide)
      have hbell : u = 7 ↔ v = 7 := eq_iff_of_control?_eq hu (by decide)
      have hvoice : us.head? = some 8 ↔ vs.head? = some 8 :=
        head?_eq_iff_of_map_control?_eq hus (by decide)
      have hruby : us.head? = some 1 ↔ vs.head? = some 1 :=
        head?_eq_iff_of_map_control?_eq hus (by decide)
      simp only [spanOpenAfter, ne_eq, hnull, hbell, hvoice, hruby]
      exact ih hus _

theorem spanOpenAfter_pair {u v : UInt16} (hu : 0xD800 ≤ u.toNat) (hv : 0xD800 ≤ v.toNat)
    {isOpen : Bool} {us : List UInt16} :
    spanOpenAfter isOpen (u :: v :: us) = spanOpenAfter isOpen us := by
  have hne : u ≠ 0 ∧ u ≠ 7 ∧ v ≠ 0 ∧ v ≠ 7 := by
    refine ⟨?_, ?_, ?_, ?_⟩ <;> rintro rfl <;> simp at hu hv
  cases isOpen <;> simp [spanOpenAfter, hne]

/-- Units that are read and written again keep their control units. -/
theorem control?_encode_decode (us : List UInt16) :
    (encode (decode us)).map control? = us.map control? := by
  have hsingle : ∀ u, (encodeChar (single u)).map control? = [control? u] := by
    intro u
    cases hs : isHigh u || isLow u with
    | true =>
      rw [single, hs, if_pos rfl, control?_surrogate hs]
      rfl
    | false =>
      obtain ⟨hh, hl⟩ := Bool.or_eq_false_iff.1 hs
      rw [encodeChar_single hh hl, List.map_singleton]
  fun_induction decode us with
  | case1 => rfl
  | case2 u => rw [encode, List.flatMap_singleton, hsingle, List.map_singleton]
  | case3 u v rest hp ih =>
    rw [encode, List.flatMap_cons, encodeChar_pair hp]
    exact congrArg ([control? u, control? v] ++ ·) ih
  | case4 u v rest hp ih =>
    rw [encode, List.flatMap_cons, List.map_append, hsingle]
    exact congrArg (control? u :: ·) ih

variable {bytes : List UInt8}

theorem even_unitBytes (us : List UInt16) : (unitBytes us).length % 2 = 0 := by
  rw [length_unitBytes]
  omega

/-- A terminator is a zero unit after units that leave no span open. -/
theorem endsInTerminator_iff : endsInTerminator bytes = true ↔
    ∃ us, bytes = unitBytes us ++ [0, 0] ∧ spanOpenAfter false us = false := by
  simp only [endsInTerminator, Bool.and_eq_true, beq_iff_eq, Bool.not_eq_true']
  refine ⟨fun h ↦ ?_, fun h ↦ ?_⟩
  · obtain ⟨⟨heven, hlast⟩, hopen⟩ := h
    obtain ⟨us, hus⟩ := List.getLast?_eq_some_iff.1 hlast
    refine ⟨us, ?_, ?_⟩
    · rw [← unitBytes_units heven, hus, unitBytes, List.flatMap_append]
      rfl
    · rwa [hus, List.dropLast_concat] at hopen
  · obtain ⟨us, rfl, hopen⟩ := h
    have hunits : units (unitBytes us ++ [0, 0]) = us ++ [0] := units_unitBytes_append us [0, 0]
    refine ⟨⟨?_, ?_⟩, ?_⟩
    · rw [List.length_append, length_unitBytes]
      exact Nat.mul_add_mod ..
    · rw [hunits, List.getLast?_concat]
    · rwa [hunits, List.dropLast_concat]

theorem endsInTerminator_congr {bytes' : List UInt8} (h : bytes.length % 2 = bytes'.length % 2)
    (hus : (units bytes).map control? = (units bytes').map control?) :
    endsInTerminator bytes = endsInTerminator bytes' := by
  have hlast : (units bytes).getLast? = some 0 ↔ (units bytes').getLast? = some 0 := by
    rw [← List.head?_reverse, ← List.head?_reverse]
    apply head?_eq_iff_of_map_control?_eq _ (by decide)
    rw [List.map_reverse, List.map_reverse, hus]
  have hfront : (units bytes).dropLast.map control? = (units bytes').dropLast.map control? := by
    rw [List.map_dropLast, List.map_dropLast, hus]
  rw [Bool.eq_iff_iff]
  simp only [endsInTerminator, Bool.and_eq_true, beq_iff_eq, h, hlast,
    spanOpenAfter_congr hfront false]

/-- The text of a message without its terminator. -/
def bareText (bytes : List UInt8) : String :=
  ofBytes (if endsInTerminator bytes then bytes.take (bytes.length - 2) else bytes)

/-- The bytes of a text, with a terminator or without one. -/
def textBytes (terminated : Bool) (text : String) : List UInt8 :=
  toBytes text ++ if terminated then [0, 0] else []

theorem bareText_of_terminated {us : List UInt16}
    (h : endsInTerminator (unitBytes us ++ [0, 0]) = true) :
    bareText (unitBytes us ++ [0, 0]) = ofBytes (unitBytes us) := by
  have htake : (unitBytes us ++ [0, 0]).take ((unitBytes us ++ [0, 0]).length - 2) =
      unitBytes us := by
    rw [List.length_append]
    exact List.take_left
  rw [bareText, if_pos h, htake]

/-- A text that leaves no span open is read back without its terminator. -/
theorem terminated_textBytes {text : String} (h : spanOpenAfter false (encode text.toList) = false) :
    endsInTerminator (textBytes true text) = true ∧ bareText (textBytes true text) = text := by
  have hends : endsInTerminator (textBytes true text) = true := endsInTerminator_iff.2 ⟨_, rfl, h⟩
  exact ⟨hends, (bareText_of_terminated hends).trans (ofBytes_toBytes text)⟩

/-- A text whose bytes end in no terminator is read back from them as it is. -/
theorem unterminated_textBytes {text : String}
    (h : endsInTerminator (textBytes false text) = false) :
    endsInTerminator (textBytes false text) = false ∧ bareText (textBytes false text) = text := by
  refine ⟨h, ?_⟩
  rw [bareText, h, if_neg Bool.false_ne_true, textBytes, if_neg Bool.false_ne_true, List.append_nil,
    ofBytes_toBytes]

/-- Bytes that are read and written again end in a terminator if their whole units did. -/
theorem endsInTerminator_toBytes_ofBytes (h : bytes.length % 2 = 0) :
    endsInTerminator (toBytes (ofBytes bytes)) = endsInTerminator bytes := by
  apply endsInTerminator_congr
  · rw [toBytes, even_unitBytes, h]
  · rw [toBytes, ofBytes, String.toList_ofList, units_unitBytes, control?_encode_decode]

/-- A message that is written again with its own text reads the same. -/
theorem rewritten (h : bytes.length % 2 = 0) :
    endsInTerminator (textBytes (endsInTerminator bytes) (bareText bytes)) =
        endsInTerminator bytes ∧
      bareText (textBytes (endsInTerminator bytes) (bareText bytes)) = bareText bytes := by
  cases hends : endsInTerminator bytes with
  | true =>
    obtain ⟨us, rfl, hopen⟩ := endsInTerminator_iff.1 hends
    apply terminated_textBytes
    rw [bareText_of_terminated hends, ofBytes, units_unitBytes, String.toList_ofList,
      spanOpenAfter_congr (control?_encode_decode us), hopen]
  | false =>
    apply unterminated_textBytes
    rw [bareText, hends, if_neg Bool.false_ne_true, textBytes, if_neg Bool.false_ne_true,
      List.append_nil, endsInTerminator_toBytes_ofBytes h, hends]

theorem toBytes_push_null (text : String) : toBytes (text.push '\x00') = toBytes text ++ [0, 0] := by
  rw [toBytes, String.toList_push, encode, List.flatMap_append, unitBytes, List.flatMap_append]
  rfl

/-- A terminator with a single byte behind it, which leaves the length odd, so that it does not count
as one. The byte is dropped when the message is read. -/
def HidesTerminator (bytes : List UInt8) : Prop :=
  bytes.length % 2 = 1 ∧ endsInTerminator bytes.dropLast = true

instance : DecidablePred HidesTerminator := fun _ ↦ instDecidableAnd

theorem units_dropLast : ∀ {bytes : List UInt8}, bytes.length % 2 = 1 →
    units bytes.dropLast = units bytes
  | [], h => by cases h
  | [_], _ => rfl
  | a :: b :: rest, h => by
    have hrest : rest.length % 2 = 1 := by
      simp only [List.length_cons] at h
      omega
    cases rest with
    | nil => cases hrest
    | cons c rest =>
      rw [List.dropLast_cons_cons, List.dropLast_cons_cons, units, units, units_dropLast hrest]

theorem even_dropLast (h : bytes.length % 2 = 1) : bytes.dropLast.length % 2 = 0 := by
  rw [List.length_dropLast]
  omega

theorem bareText_of_odd (h : bytes.length % 2 = 1) :
    endsInTerminator bytes = false ∧ bareText bytes = ofBytes bytes.dropLast := by
  have hends : endsInTerminator bytes = false := by
    rw [endsInTerminator, h]
    rfl
  refine ⟨hends, ?_⟩
  rw [bareText, hends, if_neg Bool.false_ne_true, ofBytes, ofBytes, units_dropLast h]

theorem decode_concat_zero (us : List UInt16) : decode (us ++ [0]) = decode us ++ ['\x00'] := by
  fun_induction decode us with
  | case1 => rfl
  | case2 u =>
    have hpair : ¬(isHigh u && isLow 0) = true := by
      rw [Bool.and_eq_true]
      exact fun h ↦ Bool.false_ne_true h.2
    rw [List.singleton_append, decode, if_neg hpair]
    rfl
  | case3 u v rest hp ih =>
    rw [List.cons_append, List.cons_append, decode, if_pos hp, ih]
    rfl
  | case4 u v rest hp ih =>
    rw [List.cons_append, List.cons_append, decode, if_neg hp]
    exact congrArg (single u :: ·) ih

theorem ofBytes_concat_zero (us : List UInt16) :
    ofBytes (unitBytes us ++ [0, 0]) = (ofBytes (unitBytes us)).push '\x00' := by
  have hunits : units (unitBytes us ++ [0, 0]) = us ++ [0] := units_unitBytes_append us [0, 0]
  rw [ofBytes, ofBytes, hunits, units_unitBytes, decode_concat_zero]
  exact String.toList_injective (by simp)

/-- A hidden terminator belongs to the text. Written again it is a terminator, and the text has lost
it. -/
theorem rewritten_of_hides (h : HidesTerminator bytes) :
    endsInTerminator bytes = false ∧
      endsInTerminator (textBytes (endsInTerminator bytes) (bareText bytes)) = true ∧
      bareText bytes =
        (bareText (textBytes (endsInTerminator bytes) (bareText bytes))).push '\x00' := by
  obtain ⟨hodd, hhidden⟩ := h
  obtain ⟨hends, hbare⟩ := bareText_of_odd hodd
  obtain ⟨us, hus, hopen⟩ := endsInTerminator_iff.1 hhidden
  have hclosed : spanOpenAfter false (encode (ofBytes (unitBytes us)).toList) = false := by
    rw [ofBytes, units_unitBytes, String.toList_ofList,
      spanOpenAfter_congr (control?_encode_decode us), hopen]
  have hagain : textBytes false (bareText bytes) = textBytes true (ofBytes (unitBytes us)) := by
    rw [hbare, hus, ofBytes_concat_zero, textBytes, if_neg Bool.false_ne_true, List.append_nil,
      toBytes_push_null]
    rfl
  obtain ⟨hterminated, hbare'⟩ := terminated_textBytes hclosed
  rw [hends, hagain, hbare', hbare, hus, ofBytes_concat_zero]
  exact ⟨rfl, hterminated, rfl⟩

/-- A message that is written again with its own text reads the same just if it hides no
terminator. -/
theorem rewritten_iff :
    endsInTerminator (textBytes (endsInTerminator bytes) (bareText bytes)) =
        endsInTerminator bytes ∧
      bareText (textBytes (endsInTerminator bytes) (bareText bytes)) = bareText bytes ↔
    ¬HidesTerminator bytes := by
  constructor
  · intro h hhides
    obtain ⟨hends, hagain, -⟩ := rewritten_of_hides hhides
    rw [hagain, hends] at h
    cases h.1
  · intro h
    obtain heven | hodd := Nat.mod_two_eq_zero_or_one bytes.length
    · exact rewritten heven
    · obtain ⟨hends, hbare⟩ := bareText_of_odd hodd
      have hplain : endsInTerminator bytes.dropLast = false :=
        Bool.eq_false_iff.2 fun hhidden ↦ h ⟨hodd, hhidden⟩
      rw [hends, hbare]
      apply unterminated_textBytes
      rw [textBytes, if_neg Bool.false_ne_true, List.append_nil,
        endsInTerminator_toBytes_ofBytes (even_dropLast hodd), hplain]

/-- A message that is written again is as long as its whole units were. -/
theorem length_rewritten (bytes : List UInt8) :
    (textBytes (endsInTerminator bytes) (bareText bytes)).length =
      bytes.length - bytes.length % 2 := by
  have hlength : ∀ us, (encode (decode us)).length = us.length := fun us ↦ by
    have hmap := congrArg List.length (control?_encode_decode us)
    rwa [List.length_map, List.length_map] at hmap
  cases hends : endsInTerminator bytes with
  | true =>
    obtain ⟨us, rfl, -⟩ := endsInTerminator_iff.1 hends
    have heven := even_unitBytes us
    have hzero : ([0, 0] : List UInt8).length = 2 := rfl
    rw [bareText_of_terminated hends, textBytes, if_pos rfl, List.length_append, List.length_append,
      toBytes, ofBytes, String.toList_ofList, units_unitBytes, length_unitBytes, hlength,
      ← length_unitBytes, hzero]
    omega
  | false =>
    have hunits := two_mul_length_units bytes
    rw [bareText, hends, if_neg Bool.false_ne_true, textBytes, if_neg Bool.false_ne_true,
      List.append_nil, toBytes, ofBytes, String.toList_ofList, length_unitBytes, hlength]
    omega

end NovelScript
