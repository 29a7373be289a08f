import NovelScript.Proofs.Markup.Tokens
import NovelScript.Proofs.Text.NullFree
import NovelScript.Proofs.Text.Spans

/-!
The parts of a message as the engine reads it: characters, signs, and spans of any body. Each part
closes what it opens (`Part.spanOpenAfter_append`), so a text of such parts is read back as it was
written, with a terminator or without one (`Part.textBytes_read`): a zero unit at its end always
closes a span.
-/

namespace NovelScript

open Utf16

/-- Units in an open span leave it open if none of them is zero. -/
theorem spanOpenAfter_true_append {us : List UInt16} (h : ∀ u ∈ us, u ≠ 0) (vs : List UInt16) :
    spanOpenAfter true (us ++ vs) = spanOpenAfter true vs := by
  induction us with
  | nil => rfl
  | cons u us ih =>
    obtain ⟨hu, hus⟩ := List.forall_mem_cons.1 h
    rw [List.cons_append, spanOpenAfter, if_pos rfl, decide_eq_true hu]
    exact ih hus

theorem spanOpenAfter_cons_of_ne {u : UInt16} (h : u ≠ 7) (us : List UInt16) :
    spanOpenAfter false (u :: us) = spanOpenAfter false us := by
  simp [spanOpenAfter, h]

namespace Markup

/-- The control sequences of U+0007 and one more character that a closing character ends. -/
inductive SpanKind where
  | voice
  | ruby
  deriving DecidableEq, Repr

def SpanKind.code : SpanKind → Char
  | voice => '\x08'
  | ruby => '\x01'

inductive Part where
  | char (c : Char)
  | sign (g : Sign)
  | span (kind : SpanKind) (body : List Char)
  deriving DecidableEq, Repr

namespace Part

def raw : Part → List Char
  | char c => [c]
  | sign g => [bell, g.code]
  | span kind body => bell :: kind.code :: body ++ [null]

/-- A span holds anything but a closing character. -/
def Sound : Part → Prop
  | char c => c ≠ null ∧ c ≠ bell
  | sign _ => True
  | span _ body => NullFree body

instance : DecidablePred Sound
  | char _ => inferInstanceAs (Decidable (_ ∧ _))
  | sign _ => .isTrue trivial
  | span _ body => inferInstanceAs (Decidable (NullFree body))

variable {p : Part} {ps : List Part}

/-- The units of a span: one that opens it, the body, and a zero unit. -/
theorem encode_span (kind : SpanKind) (body : List Char) :
    encode (span kind body).raw =
      7 :: (if kind = .voice then 8 else 1) :: (encode body ++ [0]) := by
  rw [raw, encode, List.flatMap_append]
  cases kind <;> rfl

theorem spanOpenAfter_span (kind : SpanKind) {body : List Char} (h : NullFree body)
    (vs : List UInt16) :
    spanOpenAfter false (7 :: (if kind = .voice then 8 else 1) :: (encode body ++ vs)) =
      spanOpenAfter true vs := by
  rw [← spanOpenAfter_true_append (encode_ne_zero h) vs]
  cases kind <;> rfl

/-- Only spans have a zero unit. -/
theorem nullFree_raw (h : p.Sound) (hspan : ∀ kind body, p ≠ span kind body) : NullFree p.raw := by
  cases p with
  | char c => exact nullFree_cons_iff.2 ⟨h.1, List.not_mem_nil⟩
  | sign g => cases g <;> decide
  | span kind body => exact absurd rfl (hspan kind body)

/-- Behind a part no span is open. -/
theorem spanOpenAfter_append (h : p.Sound) (vs : List UInt16) :
    spanOpenAfter false (encode p.raw ++ vs) = spanOpenAfter false vs := by
  cases p with
  | char c =>
    rw [raw, encode, List.flatMap_singleton]
    obtain ⟨u, hu, hn⟩ | ⟨u, v, hu, hhigh, hlow, -⟩ := encodeChar_cases c
    · rw [hu]
      refine spanOpenAfter_cons_of_ne (fun hbell ↦ h.2 (Char.toNat_inj.1 ?_)) vs
      rw [← hn, hbell]
      rfl
    · rw [hu]
      exact spanOpenAfter_pair hhigh hlow
  | sign g => cases g <;> rfl
  | span kind body =>
    rw [encode_span, List.cons_append, List.cons_append, List.append_assoc,
      spanOpenAfter_span kind h]
    rfl

/-- A part that ends in a zero unit closes a span with it. -/
theorem spanOpenAfter_of_concat_zero (h : p.Sound) {us : List UInt16}
    (hus : encode p.raw = us ++ [0]) : spanOpenAfter false us = true := by
  have hzero : 0 ∈ encode p.raw := by
    rw [hus]
    exact List.mem_concat_self
  cases p with
  | char c => exact absurd rfl (encode_ne_zero (nullFree_raw h (by simp)) 0 hzero)
  | sign g => exact absurd rfl (encode_ne_zero (nullFree_raw h (by simp)) 0 hzero)
  | span kind body =>
    rw [encode_span] at hus
    have hfront : 7 :: (if kind = .voice then 8 else 1) :: encode body = us :=
      List.append_cancel_right hus
    have hopen := spanOpenAfter_span kind h []
    rwa [List.append_nil, hfront] at hopen

/-- After any number of parts no span is open. -/
theorem spanOpenAfter_flatMap (h : ∀ p ∈ ps, p.Sound) :
    spanOpenAfter false (encode (ps.flatMap raw)) = false := by
  induction ps with
  | nil => rfl
  | cons p ps ih =>
    obtain ⟨hp, hps⟩ := List.forall_mem_cons.1 h
    rw [List.flatMap_cons, encode, List.flatMap_append]
    exact (spanOpenAfter_append hp _).trans (ih hps)

/-- A zero unit at the end of any number of parts closes a span. -/
theorem spanOpenAfter_of_flatMap_eq (h : ∀ p ∈ ps, p.Sound) {us : List UInt16}
    (hus : encode (ps.flatMap raw) = us ++ [0]) : spanOpenAfter false us = true := by
  induction ps generalizing us with
  | nil => simp [encode] at hus
  | cons p ps ih =>
    obtain ⟨hp, hps⟩ := List.forall_mem_cons.1 h
    rw [List.flatMap_cons, encode, List.flatMap_append] at hus
    change encode p.raw ++ encode (ps.flatMap raw) = us ++ [0] at hus
    -- the zero unit belongs to the last part that has units
    obtain hnil | ⟨vs, v, hvs⟩ := List.eq_nil_or_concat (encode (ps.flatMap raw))
    · rw [hnil, List.append_nil] at hus
      exact spanOpenAfter_of_concat_zero hp hus
    · rw [List.concat_eq_append] at hvs
      rw [hvs, ← List.append_assoc] at hus
      obtain ⟨rfl, hv⟩ := List.append_inj' hus rfl
      rw [spanOpenAfter_append hp]
      exact ih hps (hv ▸ hvs)

/-- A text of parts is read back, and its terminator, if it has one, is told from the closing
characters of spans. -/
theorem textBytes_read (h : ∀ p ∈ ps, p.Sound) (terminated : Bool) :
    endsInTerminator (textBytes terminated (String.ofList (ps.flatMap raw))) = terminated ∧
      bareText (textBytes terminated (String.ofList (ps.flatMap raw))) =
        String.ofList (ps.flatMap raw) := by
  cases terminated with
  | true =>
    apply terminated_textBytes
    rw [String.toList_ofList]
    exact spanOpenAfter_flatMap h
  | false =>
    apply unterminated_textBytes
    rw [Bool.eq_false_iff]
    intro hends
    obtain ⟨us, hbytes, hclosed⟩ := endsInTerminator_iff.1 hends
    have hunits := congrArg units hbytes
    rw [textBytes, if_neg Bool.false_ne_true, List.append_nil, toBytes, String.toList_ofList,
      units_unitBytes, units_unitBytes_append] at hunits
    rw [spanOpenAfter_of_flatMap_eq h hunits] at hclosed
    cases hclosed

end Part

end Markup

end NovelScript
