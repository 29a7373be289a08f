import NovelScript.Proofs.Packing.Failing
import NovelScript.Proofs.Packing.MessageTiling

/-!
Rebuilding a message segment from the texts that it has, whatever its bytes. Every message reads as
before, unless a single byte behind its units hides a terminator (`repackMessages_ownTexts`).
-/

namespace NovelScript.Container

variable {c c' : Container}

/-- Every message lies inside the message segment. -/
def MessagesInside (c : Container) : Prop :=
  ∀ e ∈ c.messages, e.offset.toNat + e.length.toNat ≤ c.messageData.size

def HidesTerminatorAt (c : Container) (index : UInt32) : Prop :=
  ∃ e, c.messages[index.toNat]? = some e ∧ HidesTerminator (c.entryBytes e)

/-- A container whose message segment has been rebuilt from its own texts. A message that has kept a
hidden terminator reads without its last character, and as terminated. -/
structure MessagesKept (c c' : Container) : Prop where
  rest : c' = { c with messages := c'.messages, messageData := c'.messageData }
  kept : ∀ index, c'.messageText? index = c.messageText? index ∧
    c'.messageTerminated index = c.messageTerminated index ↔ ¬c.HidesTerminatorAt index
  shown : ∀ index, c.HidesTerminatorAt index →
    c.messageTerminated index = false ∧ c'.messageTerminated index = true ∧
      ∃ text, c'.messageText? index = some text ∧
        c.messageText? index = some (text.push '\x00')

theorem entryText?_own {e : MessageEntry}
    (h : e.offset.toNat + e.length.toNat ≤ c.messageData.size) :
    c.entryText? e = some (bareText (c.entryBytes e)) ∧
      c.entryTerminated e = endsInTerminator (c.entryBytes e) := by
  rw [entryText?_eq_map, entryTerminated, entryBytes?_eq_some h]
  exact ⟨rfl, rfl⟩

theorem getElem?_ownTexts (h : c.MessagesInside) (p : Nat) :
    c.ownTexts[p]? = c.messages[p]?.bind c.entryText? := by
  rw [ownTexts, List.getElem?_map, Array.getElem?_toList]
  cases he : c.messages[p]? with
  | none => rfl
  | some e =>
    obtain ⟨htext, -⟩ := entryText?_own (h e (Array.mem_of_getElem? he))
    rw [Option.map_some, Option.bind_some, htext]
    rfl

/-- The bytes that the whole units of some messages take up. -/
def wholeSize : List MessageEntry → Nat
  | [] => 0
  | e :: later => e.length.toNat - e.length.toNat % 2 + wholeSize later

theorem length_messagePieces_ownTexts (h : c.MessagesInside)
    (hsize : c.messages.size ≤ UInt32.size) :
    (c.messagePieces c.ownTexts).flatten.length = wholeSize c.messages.toList := by
  have hinside : ∀ e ∈ c.messages.toList, e.offset.toNat + e.length.toNat ≤ c.messageData.size :=
    fun e he ↦ h e (Array.mem_toList_iff.1 he)
  rw [messagePieces_ownTexts hsize]
  generalize c.messages.toList = es at hinside ⊢
  induction es with
  | nil => rfl
  | cons e later ih =>
    obtain ⟨hle, hlater⟩ := List.forall_mem_cons.1 hinside
    obtain ⟨htext, hterminated⟩ := entryText?_own hle
    rw [List.map_cons, List.flatten_cons, List.length_append, ih hlater, rewrittenBytes, htext,
      hterminated, Option.getD_some, length_rewritten, length_entryBytes hle, wholeSize]

/-- What a message of a rebuilt segment was and is. -/
theorem reads_of_repackMessages_ownTexts (hin : c.MessagesInside)
    (h : c.repackMessages c.ownTexts = .ok c') {index : UInt32} {e : MessageEntry}
    (he : c.messages[index.toNat]? = some e) :
    (c.messageText? index = some (bareText (c.entryBytes e)) ∧
      c.messageTerminated index = endsInTerminator (c.entryBytes e)) ∧
      c'.messageText? index = some (bareText
        (textBytes (endsInTerminator (c.entryBytes e)) (bareText (c.entryBytes e)))) ∧
      c'.messageTerminated index = endsInTerminator
        (textBytes (endsInTerminator (c.entryBytes e)) (bareText (c.entryBytes e))) := by
  have hle := hin e (Array.mem_of_getElem? he)
  have hread := messageText?_of_getElem? he (entryBytes?_eq_some hle)
  obtain ⟨hown, -⟩ := entryText?_own hle
  have htext : c.ownTexts[index.toNat]? = some (bareText (c.entryBytes e)) := by
    rw [getElem?_ownTexts hin, he, Option.bind_some, hown]
  obtain ⟨e', he', hbytes⟩ := exists_entry_of_repackMessages h htext
  rw [messagePiece, UInt32.ofNat_toNat, hread.2] at hbytes
  exact ⟨hread, messageText?_of_getElem? he' hbytes⟩

theorem messagesKept_of_repackMessages (hin : c.MessagesInside)
    (h : c.repackMessages c.ownTexts = .ok c') : MessagesKept c c' := by
  obtain ⟨hrest, hsize, -⟩ := repackMessages_eq_ok h
  refine ⟨hrest, fun index ↦ ?_, fun index hhides ↦ ?_⟩
  · cases he : c.messages[index.toNat]? with
    | none =>
      have hge := Array.getElem?_eq_none_iff.1 he
      obtain ⟨htext, hterminated⟩ := messageText?_of_le hge
      obtain ⟨htext', hterminated'⟩ := messageText?_of_le (hsize ▸ hge : c'.messages.size ≤ _)
      rw [htext, hterminated, htext', hterminated', HidesTerminatorAt, he]
      simp
    | some e =>
      obtain ⟨⟨htext, hterminated⟩, htext', hterminated'⟩ :=
        reads_of_repackMessages_ownTexts hin h he
      have hhides : c.HidesTerminatorAt index ↔ HidesTerminator (c.entryBytes e) := by
        simp [HidesTerminatorAt, he]
      rw [htext, hterminated, htext', hterminated', hhides, ← rewritten_iff, Option.some_inj]
      exact and_comm
  · obtain ⟨e, he, hhides⟩ := hhides
    obtain ⟨⟨htext, hterminated⟩, htext', hterminated'⟩ :=
      reads_of_repackMessages_ownTexts hin h he
    obtain ⟨hends, hagain, hbare⟩ := rewritten_of_hides hhides
    rw [htext, hterminated, htext', hterminated']
    exact ⟨hends, hagain, _, rfl, congrArg some hbare⟩

/-- A container is rebuilt from its own messages if their pieces take up less than 4 GiB, and in a
table of at most 2 ^ 32 entries the pieces are as long as the whole units of the messages. All
messages are kept but those that hide a terminator. -/
theorem repackMessages_ownTexts (h : c.MessagesInside) :
    (∀ index : UInt32, c.ownTexts[index.toNat]? = c.messageText? index) ∧
      ((c.messagePieces c.ownTexts).flatten.length < UInt32.size →
        ∃ c', c.repackMessages c.ownTexts = .ok c' ∧ MessagesKept c c') ∧
      (UInt32.size ≤ (c.messagePieces c.ownTexts).flatten.length →
        c.repackMessages c.ownTexts = .error (.segmentTooLarge "message")) ∧
      (c.messages.size ≤ UInt32.size →
        (c.messagePieces c.ownTexts).flatten.length = wholeSize c.messages.toList) := by
  have hcount : c.ownTexts.length = c.messages.size := by
    rw [ownTexts, List.length_map, Array.length_toList]
  obtain ⟨hfits, hlarge⟩ := repackMessages_of_length hcount
  refine ⟨fun index ↦ getElem?_ownTexts h index.toNat, fun hlt ↦ ?_, hlarge,
    length_messagePieces_ownTexts h⟩
  obtain ⟨c', hc'⟩ := hfits hlt
  exact ⟨c', hc', messagesKept_of_repackMessages h hc'⟩

/-- A message that hides a terminator, one of odd length inside of it, half a surrogate pair behind
the start of a span, and a terminated message. -/
def strayMessages : Container where
  messages := #[⟨0, 5⟩, ⟨4, 3⟩, ⟨5, 6⟩, ⟨0, 4⟩]
  messageData := #[0x61, 0, 0, 0, 0xFF, 0x07, 0, 0x08, 0, 0, 0xD8]

theorem repackMessages_ownTexts_strayMessages :
    strayMessages.MessagesInside ∧
      ∃ c', strayMessages.repackMessages ["a\x00", "\u07FF", "\x07\x08\uFFFD", "a"] = .ok c' ∧
        c'.messages.toList = [⟨0, 4⟩, ⟨4, 2⟩, ⟨6, 6⟩, ⟨12, 4⟩] ∧
        (strayMessages.messageTerminated 0 = false ∧ c'.messageTerminated 0 = true ∧
          ∃ text, c'.messageText? 0 = some text ∧
            strayMessages.messageText? 0 = some (text.push '\x00')) ∧
        c'.messageText? 1 = some "\u07FF" ∧ c'.messageTerminated 1 = false ∧
        c'.messageText? 2 = some "\x07\x08\uFFFD" ∧ c'.messageTerminated 2 = false ∧
        c'.messageText? 3 = some "a" ∧ c'.messageTerminated 3 = true := by
  have hin : strayMessages.MessagesInside := by
    have hall : ∀ e ∈ strayMessages.messages.toList,
        e.offset.toNat + e.length.toNat ≤ strayMessages.messageData.size := by decide
    exact fun e he ↦ hall e (Array.mem_toList_iff.2 he)
  obtain ⟨-, hfits, -, hlength⟩ := repackMessages_ownTexts hin
  obtain ⟨c', hc', hkept⟩ := hfits (by rw [hlength (by decide)]; decide)
  have htexts : strayMessages.ownTexts = ["a\x00", "\u07FF", "\x07\x08\uFFFD", "a"] := by
    decide
  have hentries : (strayMessages.repackMessages strayMessages.ownTexts).toOption.map
      (·.messages.toList) = some [⟨0, 4⟩, ⟨4, 2⟩, ⟨6, 6⟩, ⟨12, 4⟩] := by decide
  rw [hc'] at hentries
  have hhides : strayMessages.HidesTerminatorAt 0 := ⟨⟨0, 5⟩, rfl, by decide⟩
  have hplain : ∀ index ∈ [(1 : UInt32), 2, 3], ¬strayMessages.HidesTerminatorAt index := by
    rintro index hindex ⟨e, he, hhidden⟩
    simp only [List.mem_cons, List.not_mem_nil, or_false] at hindex
    rcases hindex with rfl | rfl | rfl <;> cases he <;> exact absurd hhidden (by decide)
  obtain ⟨htext₁, hends₁⟩ := (hkept.kept 1).2 (hplain 1 (by decide))
  obtain ⟨htext₂, hends₂⟩ := (hkept.kept 2).2 (hplain 2 (by decide))
  obtain ⟨htext₃, hends₃⟩ := (hkept.kept 3).2 (hplain 3 (by decide))
  refine ⟨hin, c', htexts ▸ hc', Option.some.inj hentries, hkept.shown 0 hhides, ?_⟩
  rw [htext₁, hends₁, htext₂, hends₂, htext₃, hends₃]
  decide

/-- The last character of a message of odd length is lost to a terminator. -/
theorem repackMessages_ownTexts_loses :
    ¬∀ c : Container, c.MessagesInside → ∃ c', c.repackMessages c.ownTexts = .ok c' ∧
      ∀ index, c'.messageText? index = c.messageText? index ∧
        c'.messageTerminated index = c.messageTerminated index := by
  intro h
  let c : Container := { messages := #[⟨0, 5⟩], messageData := #[0x41, 0, 0, 0, 0xFF] }
  have hin : c.MessagesInside := by
    intro e he
    rw [Array.mem_singleton.1 he]
    decide
  obtain ⟨c', hc', hkept⟩ := h c hin
  have hterminated : (c.repackMessages c.ownTexts).toOption.map (·.messageTerminated 0) =
      some true := by decide
  rw [hc'] at hterminated
  have hbefore : c.messageTerminated 0 = false := by decide
  rw [← (hkept 0).2] at hbefore
  exact Bool.false_ne_true (hbefore.symm.trans (Option.some.inj hterminated))

end NovelScript.Container
