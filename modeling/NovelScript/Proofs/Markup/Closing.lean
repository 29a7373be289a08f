import NovelScript.Markup.Message
import NovelScript.Proofs.Text.Spans

/-!
Reading a notation leaves no span open, however its braces and brackets are nested or left over.
Every pass writes a closing character behind whatever it opens, and drops none
(`spansClosed_substitute`).
-/

namespace NovelScript.Markup

open Text

/-- Behind every start of a span there is a closing character. -/
def SpansClosed : List Char → Prop
  | [] => True
  | c :: rest =>
    (c = bell → rest.head? = some '\x08' ∨ rest.head? = some '\x01' → null ∈ rest) ∧
      SpansClosed rest

instance decidableSpansClosed : DecidablePred SpansClosed
  | [] => .isTrue trivial
  | _ :: rest =>
    have := decidableSpansClosed rest
    inferInstanceAs (Decidable (_ ∧ _))

theorem spansClosed_of_not_mem {text : List Char} (h : bell ∉ text) : SpansClosed text := by
  induction text with
  | nil => trivial
  | cons c rest ih =>
    exact ⟨fun he ↦ absurd he.symm (List.ne_of_not_mem_cons h), ih (List.not_mem_of_not_mem_cons h)⟩

/-- Whatever stands before a closing character is closed by it. -/
theorem SpansClosed.append_null {rest : List Char} (h : SpansClosed rest) (front : List Char) :
    SpansClosed (front ++ null :: rest) := by
  induction front with
  | nil => exact ⟨fun he ↦ (by cases he), h⟩
  | cons c front ih => exact ⟨fun _ _ ↦ (by simp), ih⟩

/-- A text that does not end inside the start of a span can be followed by another. -/
theorem SpansClosed.append {front rest : List Char} (hf : SpansClosed front)
    (hlast : front.getLast? ≠ some bell) (h : SpansClosed rest) : SpansClosed (front ++ rest) := by
  induction front with
  | nil => exact h
  | cons c front ih =>
    obtain ⟨hc, hf⟩ := hf
    cases front with
    | nil => exact ⟨fun he ↦ absurd (congrArg some he) hlast, h⟩
    | cons d front =>
      refine ⟨fun he hhead ↦ List.mem_append_left _ (hc he hhead), ih hf ?_⟩
      rwa [List.getLast?_cons_cons] at hlast

section Pass

variable {rule : Rule}

/-- Closing characters are not replaced, or at least replaced by a text with one. -/
def KeepsNull (rule : Rule) : Prop :=
  ∀ c rest r, rule (c :: rest) = some r →
    null ∈ r.written ∨ c ≠ null ∧ null ∉ rest.take (r.replaced - 1)

/-- What is written starts no span with what stands before it or leaves open with what follows. -/
def WritesClosed (rule : Rule) : Prop :=
  ∀ ahead r, rule ahead = some r →
    (∃ d later, r.written = d :: later ∧ d ≠ '\x08' ∧ d ≠ '\x01') ∧
      ∀ rest, SpansClosed rest → SpansClosed (r.written ++ rest)

theorem null_mem_substitute (h : KeepsNull rule) {text : List Char} (hn : null ∈ text) :
    null ∈ substitute rule text := by
  have hafter : ∀ skip, null ∈ text → null ∉ text.take skip →
      null ∈ substituteAfter rule skip text := by
    clear hn
    induction text with
    | nil => exact fun _ hn ↦ absurd hn List.not_mem_nil
    | cons c rest ih =>
      intro skip hn hskip
      cases skip with
      | succ skip =>
        rw [List.take_succ_cons] at hskip
        exact ih skip ((List.mem_cons.1 hn).resolve_left (List.ne_of_not_mem_cons hskip))
          (List.not_mem_of_not_mem_cons hskip)
      | zero =>
        rw [substituteAfter]
        split
        · rename_i r hr
          obtain hwritten | ⟨hc, hrest⟩ := h c rest r hr
          · exact List.mem_append_left _ hwritten
          · apply List.mem_append_right
            exact ih _ ((List.mem_cons.1 hn).resolve_left hc.symm) hrest
        · obtain rfl | hn := List.mem_cons.1 hn
          · exact List.mem_cons_self
          · exact List.mem_cons_of_mem _ (ih 0 hn (by simp))
  exact hafter 0 hn (by simp)

/-- A text starts as before after a pass, or with something written. -/
theorem head?_of_head?_substitute (h : WritesClosed rule) {text : List Char} {d : Char}
    (hd : d = '\x08' ∨ d = '\x01') (hhead : (substitute rule text).head? = some d) :
    text.head? = some d := by
  cases text with
  | nil => exact hhead
  | cons c rest =>
    cases hr : rule (c :: rest) with
    | none =>
      rw [substitute_of_none hr] at hhead
      exact hhead
    | some r =>
      obtain ⟨⟨e, later, hwritten, hvoice, hruby⟩, -⟩ := h _ r hr
      rw [substitute_of_some hr, hwritten] at hhead
      obtain rfl := Option.some.inj hhead
      exact (hd.elim hvoice hruby).elim

theorem spansClosed_substitute (hnull : KeepsNull rule) (hwrites : WritesClosed rule)
    {text : List Char} (h : SpansClosed text) : SpansClosed (substitute rule text) := by
  have hafter : ∀ skip, SpansClosed (substituteAfter rule skip text) := by
    induction text with
    | nil => exact fun skip ↦ by cases skip <;> trivial
    | cons c rest ih =>
      obtain ⟨hc, hrest⟩ := h
      intro skip
      cases skip with
      | succ skip => exact ih hrest skip
      | zero =>
        rw [substituteAfter]
        split
        · rename_i r hr
          exact (hwrites _ r hr).2 _ (ih hrest _)
        · refine ⟨fun he hhead ↦ null_mem_substitute hnull (hc he ?_), ih hrest 0⟩
          exact hhead.imp (head?_of_head?_substitute hwrites (.inl rfl))
            (head?_of_head?_substitute hwrites (.inr rfl))
  exact hafter 0

end Pass

theorem keepsNull_readVoice : KeepsNull readVoice := by
  intro c rest r hr
  obtain ⟨body, -, rfl⟩ := Option.map_eq_some_iff.1 hr
  exact .inl (by simp)

theorem writesClosed_readVoice : WritesClosed readVoice := by
  intro ahead r hr
  obtain ⟨body, -, rfl⟩ := Option.map_eq_some_iff.1 hr
  refine ⟨⟨bell, _, rfl, by decide, by decide⟩, fun rest h ↦ ?_⟩
  rw [List.append_assoc]
  exact h.append_null (bell :: '\x08' :: body)

theorem keepsNull_readRuby : KeepsNull readRuby := by
  intro c rest r hr
  obtain ⟨_, -, rfl⟩ := Option.map_eq_some_iff.1 hr
  exact .inl (by simp)

theorem writesClosed_readRuby : WritesClosed readRuby := by
  intro ahead r hr
  obtain ⟨⟨base, gloss⟩, -, rfl⟩ := Option.map_eq_some_iff.1 hr
  refine ⟨⟨bell, _, rfl, by decide, by decide⟩, fun rest h ↦ ?_⟩
  rw [List.append_assoc]
  exact h.append_null (bell :: '\x01' :: base ++ ['\n'] ++ gloss)

/-- The notation of a marker holds no closing character, and the marker opens no span. -/
def ClosedMarker (marker : List Char × List Char) : Prop :=
  marker.2 ≠ [] ∧ null ∉ marker.2 ∧ marker.1.head? ∉ [none, some '\x08', some '\x01'] ∧
    SpansClosed marker.1 ∧ marker.1.getLast? ≠ some bell

instance : DecidablePred ClosedMarker := fun _ ↦ inferInstanceAs (Decidable (_ ∧ _))

theorem ClosedMarker.spansClosed_replace {marker : List Char × List Char} (h : ClosedMarker marker)
    {text : List Char} (ht : SpansClosed text) :
    SpansClosed (replace marker.2 marker.1 text) := by
  obtain ⟨written, sign⟩ := marker
  obtain ⟨hne, hnull, hhead, hclosed, hlast⟩ := h
  refine spansClosed_substitute (fun c rest r hr ↦ .inr ?_) (fun ahead r hr ↦ ?_) ht
  · split at hr <;> cases hr
    rename_i hp
    obtain ⟨later, hlater⟩ := List.isPrefixOf_iff_prefix.1 hp
    dsimp only at hne hnull hlater ⊢
    cases sign with
    | nil => exact absurd rfl hne
    | cons d sign =>
      rw [List.cons_append] at hlater
      obtain ⟨rfl, rfl⟩ := List.cons.inj hlater
      refine ⟨(List.ne_of_not_mem_cons hnull).symm, ?_⟩
      rw [List.length_cons, Nat.add_sub_cancel, List.take_left]
      exact List.not_mem_of_not_mem_cons hnull
  · split at hr <;> cases hr
    refine ⟨?_, fun rest hrest ↦ hclosed.append hlast hrest⟩
    dsimp only at hhead ⊢
    cases written with
    | nil => exact absurd (by simp) hhead
    | cons d later => exact ⟨d, later, rfl, by simpa using hhead⟩

/-- Reading a notation leaves no span unclosed. -/
theorem spansClosed_unescape {text : List Char} (h : bell ∉ text) :
    SpansClosed (Message.unescape text) := by
  have hspans := spansClosed_substitute keepsNull_readRuby writesClosed_readRuby
    (spansClosed_substitute keepsNull_readVoice writesClosed_readVoice (spansClosed_of_not_mem h))
  have hmarkers : ∀ marker ∈ markers, ClosedMarker marker := by decide
  rw [Message.unescape]
  generalize substitute readRuby (substitute readVoice text) = read at hspans ⊢
  generalize markers = left at hmarkers ⊢
  induction left generalizing read with
  | nil => exact hspans
  | cons marker left ih =>
    obtain ⟨hmarker, hleft⟩ := List.forall_mem_cons.1 hmarkers
    exact ih _ (hmarker.spansClosed_replace hspans) hleft

/-- Units of a text in which every span is closed leave none open. -/
theorem SpansClosed.spanOpenAfter {text : List Char} (h : SpansClosed text) {isOpen : Bool}
    (hopen : isOpen = true → null ∈ text) :
    spanOpenAfter isOpen (Utf16.encode text) = false := by
  induction text generalizing isOpen with
  | nil =>
    cases isOpen with
    | false => rfl
    | true => exact absurd (hopen rfl) List.not_mem_nil
  | cons c rest ih =>
    obtain ⟨hc, hrest⟩ := h
    rw [Utf16.encode, List.flatMap_cons]
    change NovelScript.spanOpenAfter isOpen (_ ++ Utf16.encode rest) = false
    obtain ⟨u, hu, hn⟩ | ⟨u, v, hu, hhigh, hlow, hlarge⟩ := Utf16.encodeChar_cases c
    · rw [hu, List.singleton_append, NovelScript.spanOpenAfter]
      refine ih hrest fun hnext ↦ ?_
      cases isOpen with
      | true =>
        -- an open span stays open only behind another character
        have hne : u ≠ 0 := by simpa using hnext
        refine (List.mem_cons.1 (hopen rfl)).resolve_left fun he ↦ hne ?_
        rw [← UInt16.toNat_inj, hn, ← he]
        rfl
      | false =>
        simp only [Bool.false_eq_true, if_false, decide_eq_true_eq] at hnext
        obtain ⟨rfl, hhead⟩ := hnext
        have hbell : c = bell := Char.toNat_inj.1 hn.symm
        exact hc hbell (hhead.imp (Utf16.head?_encode (by decide))
          (Utf16.head?_encode (by decide)))
    · rw [hu]
      refine (spanOpenAfter_pair hhigh hlow).trans (ih hrest fun he ↦ ?_)
      refine (List.mem_cons.1 (hopen he)).resolve_left fun hnull ↦ ?_
      rw [← hnull] at hlarge
      exact absurd hlarge (by decide)

/-- A text read from its notation leaves no span open. -/
theorem spanOpenAfter_unescapeMessage {text : String} (h : bell ∉ text.toList) :
    spanOpenAfter false (Utf16.encode (unescapeMessage text).toList) = false := by
  rw [unescapeMessage, String.toList_ofList]
  exact (spansClosed_unescape h).spanOpenAfter fun he ↦ absurd he Bool.false_ne_true

end NovelScript.Markup
