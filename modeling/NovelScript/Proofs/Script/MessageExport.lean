import NovelScript.Proofs.Markup.Reversible
import NovelScript.Proofs.Packing.Failing
import NovelScript.Proofs.Packing.MessageTiling
import NovelScript.Proofs.Script.MessageImport
import NovelScript.Proofs.Script.Runs
import NovelScript.Proofs.Sheet.Writing

/-!
Importing the messages that a script has exported. Where the message segment is laid out like a
rebuilt one and the texts come back from their notation, the script stays as it is.
-/

namespace NovelScript

open Instruction Outcome

namespace Markup

/-- A text that notation gives back, by its tokens: all of them are plain, and none of the markers
stands directly before a parenthesis. -/
def Regular (text : String) : Prop :=
  ∃ ts : List Token, (∀ t ∈ ts, t.Plain) ∧
    (∀ before marker after, marker.IsMarker → ts ≠ before ++ marker :: .char '(' :: after) ∧
    text = String.ofList (ts.flatMap Token.raw)

theorem regular_of_not_mem {ts : List Token} (hplain : ∀ t ∈ ts, t.Plain)
    (hopen : .char '(' ∉ ts) : Regular (String.ofList (ts.flatMap Token.raw)) := by
  refine ⟨ts, hplain, fun before marker after _ he ↦ hopen ?_, rfl⟩
  rw [he]
  simp

theorem Regular.unescape_escape {text : String} (h : Regular text) :
    unescapeMessage (escapeMessage text) = text := by
  obtain ⟨ts, hplain, hopen, rfl⟩ := h
  have hgloss : ¬Glossed ts := by
    intro hg
    obtain ⟨before, marker, after, he, hmarker, gloss, rest, hparens, -⟩ := hg
    rw [hparens] at he
    exact hopen before marker _ hmarker he
  rw [unescapeMessage, escapeMessage, String.toList_ofList, String.toList_ofList,
    (unescape_escape_iff hplain).2 hgloss]

end Markup

/-- 32-bit words can tell the messages apart and address their segment. -/
structure Container.MessagesFit (c : Container) : Prop where
  messages : c.messages.size ≤ UInt32.size
  messageData : c.messageData.size < UInt32.size

namespace Script

variable {s : Script}

theorem lt_size_of_messageText? {c : Container} {index : UInt32} {text : String}
    (h : c.messageText? index = some text) : index.toNat < c.messages.size := by
  obtain ⟨e, he, -⟩ := Option.bind_eq_some_iff.1 h
  obtain ⟨hlt, -⟩ := Array.getElem?_eq_some_iff.1 he
  exact hlt

/-- Messages that are all edited to the texts they have keep their texts. -/
theorem editedMessages_ownTexts {edits : List (UInt32 × String)}
    (h : ∀ p e, s.container.messages[p]? = some e → ∃ own,
      s.container.entryText? e = some own ∧ s.editedMessage? edits p = some own) :
    s.editedMessages edits = .ok s.container.ownTexts := by
  refine editedMessages_eq_ok_iff.2 ⟨fun p hp ↦ ?_, List.ext_getElem? fun p ↦ ?_⟩
  · obtain ⟨own, -, hedited⟩ := h p _ (Array.getElem?_eq_getElem hp)
    rw [hedited]
    rfl
  · rw [Container.ownTexts, List.getElem?_map, List.getElem?_map, Array.getElem?_toList]
    cases he : s.container.messages[p]? with
    | none => rw [List.getElem?_eq_none (by simpa using he), Option.map_none, Option.map_none]
    | some e =>
      obtain ⟨hp, -⟩ := Array.getElem?_eq_some_iff.1 he
      obtain ⟨own, hown, hedited⟩ := h p e he
      rw [List.getElem?_range hp, Option.map_some, Option.map_some, hown, hedited]

/-- Edits that give messages the texts they have change none of them. -/
theorem editedMessages_own (hsize : s.container.messages.size ≤ UInt32.size)
    (hsome : ∀ e ∈ s.container.messages, (s.container.entryText? e).isSome)
    {edits : List (UInt32 × String)}
    (hedits : ∀ p ∈ edits, s.container.messageText? p.1 = some p.2) :
    s.editedMessages edits = .ok s.container.ownTexts := by
  refine editedMessages_ownTexts fun p e he ↦ ?_
  obtain ⟨hlt, -⟩ := Array.getElem?_eq_some_iff.1 he
  obtain ⟨own, hown⟩ := Option.isSome_iff_exists.1 (hsome e (Array.mem_of_getElem? he))
  obtain ⟨htext, -⟩ := Container.message_ofNat hsize he
  refine ⟨own, hown, ?_⟩
  rw [editedMessage?, ← List.map_reverse, lookup_map_toNat, if_pos (by omega), htext, hown]
  cases hedit : edits.reverse.lookup (UInt32.ofNat p) with
  | none => rfl
  | some text =>
    obtain ⟨before, after, hsplit, -⟩ := List.lookup_eq_some_iff.1 hedit
    have hmem : (UInt32.ofNat p, text) ∈ edits := by
      rw [← List.mem_reverse, hsplit]
      simp
    exact (hedits _ hmem).symm.trans (htext.trans hown)

/-- Importing the messages that a script has exported changes nothing, if its message segment is
tidy and the texts that it shows are regular. -/
theorem importMessages_exportMessages (hs : s.Reachable) (htidy : s.container.MessagesTidy)
    (hregular : ∀ m ∈ s.references.messages, m.index ≠ nameIndex → Markup.Regular m.text) :
    (s.container.MessagesFit → s.importMessages s.exportMessages = .ok s) ∧
      (∀ bytes, s.save = .ok bytes → s.container.MessagesFit) ∧
      ∀ data s₀ calls, load data = .ok s₀ → InPlace.after s₀ calls = s →
        s.container.MessagesFit := by
  refine ⟨?_, ?_, ?_⟩
  · intro hfit
    have hcurrent := hs.current
    let edits := s.references.messages.filterMap fun m ↦ if m.index = nameIndex then none
      else some (m.index, Markup.unescapeMessage (Markup.escapeMessage m.text))
    have hread : TextSheet.readMessages s.exportMessages s.container.messages.size = .ok edits := by
      apply TextSheet.readMessages_writeMessages
      intro m hm
      by_cases hn : m.index = nameIndex
      · exact .inl hn
      · exact .inr (lt_size_of_messageText? (messageText?_of_mem_references hcurrent hm hn))
    have hedits : ∀ p ∈ edits, s.container.messageText? p.1 = some p.2 := by
      intro p hp
      obtain ⟨m, hm, hmp⟩ := List.mem_filterMap.1 hp
      split at hmp
      · cases hmp
      · rename_i hn
        cases hmp
        rw [(hregular m hm hn).unescape_escape]
        exact messageText?_of_mem_references hcurrent hm hn
    -- every edit gives its message the text that it has
    have hedited := editedMessages_own hfit.messages (fun e he ↦ (htidy.entryText? he).1) hedits
    exact importMessages_eq_ok_iff.2 ⟨edits, _, s.container, hread, hedited,
      htidy.repackMessages hfit.messages hfit.messageData,
      commit_eq_ok_iff.2 ⟨rfl, rfl, hcurrent.references⟩⟩
  · intro bytes hb
    obtain ⟨hcounts, -⟩ := Container.fits_iff.1
      (Container.exists_toBytes_iff.1 ⟨bytes, mapError_eq_ok_iff.1 hb⟩)
    exact ⟨Nat.le_of_lt hcounts.messages, hcounts.messageData⟩
  · intro data s₀ calls hload hafter
    obtain ⟨hcounts, -⟩ := Container.countsFit_of_parse (load_eq_ok_iff.1 hload).1
    obtain ⟨is, -, hheld⟩ := Held.of_load hload
    have hend := hafter ▸ hheld.after calls
    exact ⟨hend.kept.messages_size ▸ Nat.le_of_lt hcounts.messages, hend.messageData⟩

/-- A terminated message, and an unterminated one that ends in a span and is shown twice. -/
def exportSample : Container where
  symbols := #[⟨"_ms_message", [], 0, 0, 0, 2⟩]
  functions := #[⟨"_ms_message", 0, 0, 0⟩]
  code := #[0x0F, 0x2D, 0, 0, 0, 0, 0x11, 1, 0x2D, 0, 0, 0, 0, 0x2D, 0, 0, 0, 0]
  messages := #[⟨0, 6⟩, ⟨6, 8⟩]
  messageData := #[0x61, 0, 0x0A, 0, 0, 0, 0x07, 0, 0x08, 0, 0x76, 0, 0, 0]

theorem importMessages_exportMessages_sample :
    ∃ s : Script, s.Reachable ∧ s.container.MessagesTidy ∧
      (∀ m ∈ s.references.messages, m.index ≠ nameIndex → Markup.Regular m.text) ∧
      s.references.messages =
        [⟨1, 0, "a\n"⟩, ⟨8, 1, "\x07\x08v\x00"⟩, ⟨13, 1, "\x07\x08v\x00"⟩] ∧
      s.importMessages s.exportMessages = .ok s := by
  let shown : List MessageRef :=
    [⟨1, 0, "a\n"⟩, ⟨8, 1, "\x07\x08v\x00"⟩, ⟨13, 1, "\x07\x08v\x00"⟩]
  have hrefs : exportSample.references (.ofContainer exportSample) = .ok ⟨[], shown⟩ :=
    toOption_eq_some_iff.1 (by decide +kernel)
  let s : Script := ⟨exportSample, .ofContainer exportSample, ⟨[], shown⟩⟩
  have hs : s.Reachable := .ofContainer (ofContainer_eq_ok_iff.2 ⟨rfl, rfl, hrefs⟩)
  have htidy : s.container.MessagesTidy := by
    have hpaired : ∀ e ∈ exportSample.messages.toList,
        Utf16.isPaired (Utf16.units (exportSample.entryBytes e)) = true := by decide
    have htiled : Tiled 0 exportSample.messages.toList exportSample.messageData.size :=
      ⟨rfl, rfl, rfl⟩
    refine ⟨htiled, ?_, ?_⟩
    · have heven : ∀ e ∈ exportSample.messages.toList, e.length.toNat % 2 = 0 := by decide
      exact fun e he ↦ heven e (Array.mem_toList_iff.2 he)
    · intro e he bytes hb
      rw [Container.entryBytes?_eq_some (htiled.le.2 e (Array.mem_toList_iff.2 he))] at hb
      cases hb
      exact hpaired e (Array.mem_toList_iff.2 he)
  have hregular : ∀ m ∈ s.references.messages, m.index ≠ nameIndex → Markup.Regular m.text := by
    have hline : Markup.Regular "a\n" := by
      let ts : List Markup.Token := [.char 'a', .char '\n']
      have hplain : ∀ t ∈ ts, t.Plain := by decide
      exact Markup.regular_of_not_mem hplain (by decide)
    have hvoice : Markup.Regular "\x07\x08v\x00" := by
      let ts : List Markup.Token := [.voice ['v']]
      have hplain : ∀ t ∈ ts, t.Plain := by decide
      exact Markup.regular_of_not_mem hplain (by decide)
    intro m hm _
    simp only [List.mem_cons, List.not_mem_nil, or_false, s, shown] at hm
    rcases hm with rfl | rfl | rfl
    · exact hline
    · exact hvoice
    · exact hvoice
  exact ⟨s, hs, htidy, hregular, rfl, (importMessages_exportMessages hs htidy hregular).1
    ⟨by decide, by decide⟩⟩

/-- Two messages that fill 4 GiB together. -/
noncomputable def fullMessages : Container where
  messages := #[⟨0, 0x80000000⟩, ⟨0x80000000, 0x80000000⟩]
  messageData :=
    (Utf16.toBytes (letters 0x40000000) ++ Utf16.toBytes (letters 0x40000000)).toArray

theorem size_fullMessages : fullMessages.messageData.size = UInt32.size := by
  rw [fullMessages, List.size_toArray, List.length_append, length_toBytes_letters]

theorem messagesTidy_fullMessages : fullMessages.MessagesTidy := by
  have hlength : (Utf16.toBytes (letters 0x40000000)).length = 0x80000000 :=
    length_toBytes_letters _
  have htiled : Tiled 0 fullMessages.messages.toList fullMessages.messageData.size := by
    rw [size_fullMessages]
    exact ⟨rfl, rfl, rfl⟩
  have hbytes : ∀ e ∈ fullMessages.messages.toList,
      fullMessages.entryBytes e = Utf16.toBytes (letters 0x40000000) := by
    have hhalves : ∀ half : List UInt8, half.length = 0x80000000 →
        ((half ++ half).drop 0).take 0x80000000 = half ∧
          ((half ++ half).drop 0x80000000).take 0x80000000 = half := by
      intro half h
      rw [← h, List.drop_zero, List.take_left, List.drop_left, List.take_length]
      exact ⟨rfl, rfl⟩
    obtain ⟨hfront, hback⟩ := hhalves _ hlength
    exact List.forall_mem_cons.2 ⟨hfront, List.forall_mem_singleton.2 hback⟩
  refine ⟨htiled, fun e he ↦ ?_, fun e he bytes hb ↦ ?_⟩
  · have heven : ∀ e ∈ fullMessages.messages.toList, e.length.toNat % 2 = 0 :=
      List.forall_mem_cons.2 ⟨rfl, List.forall_mem_singleton.2 rfl⟩
    exact heven e (Array.mem_toList_iff.2 he)
  · rw [← Array.mem_toList_iff] at he
    rw [Container.entryBytes?_eq_some (htiled.le.2 e he), hbytes e he] at hb
    rw [← Option.some.inj hb, Utf16.toBytes, Utf16.units_unitBytes, Utf16.isPaired_encode]

/-- More messages than words can tell apart. The last one is taken for the first. -/
noncomputable def crowdedMessages : Container where
  messages := (⟨0, 2⟩ :: List.replicate UInt32.size ⟨2, 0⟩).toArray
  messageData := #[0x61, 0]

theorem messagesTidy_crowdedMessages : crowdedMessages.MessagesTidy := by
  have htiled : ∀ n, Tiled 2 (List.replicate n ⟨2, 0⟩) 2 := by
    intro n
    induction n with
    | zero => rfl
    | succ n ih => exact ⟨rfl, ih⟩
  have hmem : ∀ e ∈ crowdedMessages.messages, e = ⟨0, 2⟩ ∨ e = ⟨2, 0⟩ := by
    intro e he
    rw [← Array.mem_toList_iff] at he
    exact (List.mem_cons.1 he).imp_right List.eq_of_mem_replicate
  refine ⟨⟨rfl, htiled _⟩, fun e he ↦ ?_, fun e he bytes hb ↦ ?_⟩
  · obtain rfl | rfl := hmem e he <;> rfl
  · obtain rfl | rfl := hmem e he <;> cases hb <;> decide

theorem getElem?_crowdedMessages : crowdedMessages.messages[0]? = some ⟨0, 2⟩ ∧
    crowdedMessages.messages[UInt32.size]? = some ⟨2, 0⟩ := by
  have hlast : ∀ (first last : MessageEntry) (n : Nat),
      (first :: List.replicate (n + 1) last)[n + 1]? = some last := by
    intro first last n
    rw [List.getElem?_cons_succ, List.getElem?_replicate, if_pos (Nat.lt_succ_self n)]
  rw [crowdedMessages, List.getElem?_toArray, List.getElem?_toArray]
  exact ⟨List.getElem?_cons_zero, hlast _ _ 4294967295⟩

/-- An import gives the message behind the last word the text of the first one. -/
theorem importMessages_ne_of_crowded {text own : String} {e : MessageEntry}
    (he : s.container.messages[UInt32.size]? = some e)
    (hbytes : s.container.entryBytes? e = some [])
    (hown : s.container.messageText? 0 = some own) (hne : Utf16.toBytes own ≠ []) :
    s.importMessages text ≠ .ok s := by
  intro h
  obtain ⟨_, _, _, hread, hedited, hrepack, hcommit⟩ := importMessages_eq_ok_iff.1 h
  obtain ⟨rfl, -, -⟩ := commit_eq_ok_iff.1 hcommit
  obtain ⟨hlt, -⟩ := Array.getElem?_eq_some_iff.1 he
  obtain ⟨t, e', ht, he', hbytes'⟩ :=
    (reworded_of_repackMessages hread hedited hrepack).entries UInt32.size hlt
  have hword : UInt32.ofNat UInt32.size = 0 := by decide
  rw [importedMessage?_of_le _ (Nat.le_refl _), hword, hown] at ht
  obtain rfl := Option.some.inj ht
  obtain rfl := Option.some.inj (he.symm.trans he')
  exact hne (List.append_eq_nil_iff.1 (Option.some.inj (hbytes.symm.trans hbytes')).symm).1

/-- Messages of 4 GiB cannot be laid out, and more than 2 ^ 32 messages are not told apart. -/
theorem importMessages_exportMessages_crowdedMessages :
    (∃ s, ofContainer fullMessages = .ok s ∧ s.container.MessagesTidy ∧
      s.references.messages = [] ∧ s.importMessages s.exportMessages ≠ .ok s) ∧
    ∃ s, ofContainer crowdedMessages = .ok s ∧ s.container.MessagesTidy ∧
      s.references.messages = [] ∧ s.importMessages s.exportMessages ≠ .ok s := by
  constructor
  · refine ⟨⟨fullMessages, .ofContainer fullMessages, ⟨[], []⟩⟩,
      ofContainer_eq_ok_iff.2 ⟨rfl, rfl, rfl⟩, messagesTidy_fullMessages, rfl, fun h ↦ ?_⟩
    obtain ⟨_, _, _, -, -, hrepack, hcommit⟩ := importMessages_eq_ok_iff.1 h
    obtain ⟨rfl, -, -⟩ := commit_eq_ok_iff.1 hcommit
    obtain ⟨-, -, hlt⟩ := Container.repackMessages_eq_ok hrepack
    exact absurd size_fullMessages (Nat.ne_of_lt hlt)
  · refine ⟨⟨crowdedMessages, .ofContainer crowdedMessages, ⟨[], []⟩⟩,
      ofContainer_eq_ok_iff.2 ⟨rfl, rfl, rfl⟩, messagesTidy_crowdedMessages, rfl, ?_⟩
    obtain ⟨hfirst, hlast⟩ := getElem?_crowdedMessages
    rw [← UInt32.toNat_zero] at hfirst
    have hown : crowdedMessages.messageText? 0 = some (bareText [0x61, 0]) :=
      (Container.messageText?_of_getElem? hfirst rfl).1
    have hbytes : crowdedMessages.entryBytes? ⟨2, 0⟩ = some [] := rfl
    exact importMessages_ne_of_crowded hlast hbytes hown (by decide)

end Script

end NovelScript
