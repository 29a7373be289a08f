import NovelScript.Proofs.Markup.Parts
import NovelScript.Proofs.Packing.Failing
import NovelScript.Proofs.Packing.MessageTiling

/-!
Reading the messages of a rebuilt segment. Texts made of parts are given back as they were laid
out, and their entries keep their terminators or the lack of them (`repackMessages_reads`).
-/

namespace NovelScript

open Outcome

/-- A text made of characters, signs and spans, one behind the other. -/
def Markup.InParts (text : String) : Prop :=
  ∃ ps : List Part, (∀ p ∈ ps, p.Sound) ∧ text = String.ofList (ps.flatMap Part.raw)

namespace Container

variable {c c' : Container} {texts : List String}

/-- A container whose message segment has been rebuilt from texts. -/
structure MessagesRebuilt (c c' : Container) (texts : List String) : Prop where
  tiled : Tiled 0 c'.messages.toList c'.messageData.size
  rest : c' = { c with messages := c'.messages, messageData := c'.messageData }
  texts : ∀ index, c'.messageText? index = texts[index.toNat]?
  terminators : ∀ index, c'.messageTerminated index = c.messageTerminated index

theorem messagesRebuilt_of_repackMessages (htexts : ∀ text ∈ texts, Markup.InParts text)
    (h : c.repackMessages texts = .ok c') : MessagesRebuilt c c' texts := by
  obtain ⟨hrest, hsize, -⟩ := repackMessages_eq_ok h
  obtain ⟨hcount, -⟩ := repackMessages_eq_ok_iff.1 h
  have hread : ∀ index : UInt32, c'.messageText? index = texts[index.toNat]? ∧
      c'.messageTerminated index = c.messageTerminated index := by
    intro index
    obtain hlt | hge := Nat.lt_or_ge index.toNat c.messages.size
    · obtain ⟨text, htext⟩ : ∃ text, texts[index.toNat]? = some text :=
        ⟨_, List.getElem?_eq_getElem (hcount ▸ hlt)⟩
      obtain ⟨ps, hps, rfl⟩ := htexts text (List.mem_of_getElem? htext)
      obtain ⟨e', he', hbytes⟩ := exists_entry_of_repackMessages h htext
      rw [messagePiece, UInt32.ofNat_toNat] at hbytes
      obtain ⟨hbare, hterminated⟩ := messageText?_of_getElem? he' hbytes
      obtain ⟨hends, hback⟩ := Markup.Part.textBytes_read hps (c.messageTerminated index)
      rw [hbare, hterminated, htext]
      exact ⟨congrArg some hback, hends⟩
    · obtain ⟨htext, hterminated⟩ := messageText?_of_le hge
      obtain ⟨htext', hterminated'⟩ := messageText?_of_le (hsize ▸ hge : c'.messages.size ≤ _)
      rw [htext', hterminated', hterminated, List.getElem?_eq_none (hcount ▸ hge)]
      exact ⟨rfl, rfl⟩
  exact ⟨tiled_of_repackMessages h, hrest, fun index ↦ (hread index).1, fun index ↦ (hread index).2⟩

/-- Texts of parts, one for each entry, make up a new message segment that gives each of them back,
with a terminator just where there was one. Only a segment of 4 GiB cannot be made. -/
theorem repackMessages_reads (hcount : texts.length = c.messages.size)
    (htexts : ∀ text ∈ texts, Markup.InParts text) :
    ((c.messagePieces texts).flatten.length < UInt32.size →
      ∃ c', c.repackMessages texts = .ok c' ∧ MessagesRebuilt c c' texts) ∧
    (UInt32.size ≤ (c.messagePieces texts).flatten.length →
      c.repackMessages texts = .error (.segmentTooLarge "message")) := by
  obtain ⟨hfits, hlarge⟩ := repackMessages_of_length hcount
  refine ⟨fun hlt ↦ ?_, hlarge⟩
  obtain ⟨c', hc'⟩ := hfits hlt
  exact ⟨c', hc', messagesRebuilt_of_repackMessages htexts hc'⟩

/-- An unterminated message, a terminated one, one outside of the segment and one of odd length. -/
def spanSample : Container where
  messages := #[⟨0, 2⟩, ⟨2, 4⟩, ⟨90, 4⟩, ⟨0, 3⟩]
  messageData := #[0x61, 0, 0x62, 0, 0, 0]

/-- Spans at the end, one of them empty, and the start of a span inside another. -/
def spanParts : List (List Markup.Part) :=
  [[.span .voice ['v']], [.char 'a', .span .ruby []], [.sign .c, .char '\x08'],
    [.span .voice ['\x07', '\x01'], .char '😀']]

def spanTexts : List String := spanParts.map fun ps ↦ String.ofList (ps.flatMap (·.raw))

theorem repackMessages_reads_spanSample :
    spanTexts.length = spanSample.messages.size ∧
      (∀ text ∈ spanTexts, Markup.InParts text) ∧
      ∃ c', spanSample.repackMessages spanTexts = .ok c' ∧
        c'.messageText? 0 = some "\x07\x08v\x00" ∧ c'.messageTerminated 0 = false ∧
        c'.messageText? 1 = some "a\x07\x01\x00" ∧ c'.messageTerminated 1 = true ∧
        c'.messages.toList = [⟨0, 8⟩, ⟨8, 10⟩, ⟨18, 6⟩, ⟨24, 14⟩] := by
  have hsound : ∀ ps ∈ spanParts, ∀ p ∈ ps, p.Sound := by decide
  have hparts : ∀ text ∈ spanTexts, Markup.InParts text := by
    intro text htext
    obtain ⟨ps, hps, rfl⟩ := List.mem_map.1 htext
    exact ⟨ps, hsound ps hps, rfl⟩
  have hcount : spanTexts.length = spanSample.messages.size := rfl
  obtain ⟨hfits, -⟩ := repackMessages_reads hcount hparts
  obtain ⟨c', hc', hrebuilt⟩ := hfits (by decide)
  have hentries : (spanSample.repackMessages spanTexts).toOption.map (·.messages.toList) =
      some [⟨0, 8⟩, ⟨8, 10⟩, ⟨18, 6⟩, ⟨24, 14⟩] := by decide
  rw [hc'] at hentries
  refine ⟨hcount, hparts, c', hc', hrebuilt.texts 0, ?_, hrebuilt.texts 1, ?_,
    Option.some.inj hentries⟩
  · rw [hrebuilt.terminators]
    decide
  · rw [hrebuilt.terminators]
    decide

/-- A text that there is no room for. -/
theorem repackMessages_reads_letters :
    Markup.InParts (letters 0x80000000) ∧
      repackMessages { messages := #[⟨0, 0⟩] } [letters 0x80000000] =
        .error (.segmentTooLarge "message") := by
  have hparts : ∀ n, Markup.InParts (letters n) := by
    intro n
    refine ⟨List.replicate n (.char 'a'), fun p hp ↦ ?_, congrArg String.ofList ?_⟩
    · rw [List.eq_of_mem_replicate hp]
      decide
    · rw [List.flatMap_replicate]
      exact List.flatten_replicate_singleton.symm
  refine ⟨hparts _, (repackMessages_of_length rfl).2 ?_⟩
  rw [messagePieces, List.mapIdx_singleton, List.flatten_singleton, messagePiece,
    List.length_append, length_toBytes_letters]
  exact Nat.le_add_right _ _

end Container

end NovelScript
