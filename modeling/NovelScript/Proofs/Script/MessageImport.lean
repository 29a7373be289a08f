import NovelScript.Proofs.Markup.Closing
import NovelScript.Proofs.Packing.MessageTiling
import NovelScript.Proofs.Script.StringImport

/-!
What an import of messages does. The messages that the sheet has a text for get the last one, all
others keep theirs, and everything else of the script stays as it was (`importMessages_confined`).
-/

namespace NovelScript

open Instruction Outcome

namespace Script

/-- The last text that a sheet has for the message in a place. No line can ask for a place behind the
32-bit words. -/
def placeMessage? (text : String) (p : Nat) : Option String :=
  if p < UInt32.size then TextSheet.message? text (.ofNat p) else none

/-- The text of a message after an import: the last one that the sheet has for it, or its own. -/
def importedMessage? (s : Script) (text : String) (p : Nat) : Option String :=
  placeMessage? text p <|> s.container.messageText? (.ofNat p)

variable {s s' : Script} {text : String} {count : Nat} {edits : List (UInt32 × String)}

theorem placeMessage?_of_lt {p : Nat} (hp : p < UInt32.size) :
    placeMessage? text p = TextSheet.message? text (.ofNat p) := if_pos hp

theorem importedMessage?_of_le (s : Script) {p : Nat} (hp : UInt32.size ≤ p) :
    s.importedMessage? text p = s.container.messageText? (.ofNat p) := by
  rw [importedMessage?, placeMessage?, if_neg (Nat.not_lt.2 hp)]
  rfl

theorem importedMessage?_toNat (s : Script) (text : String) (index : UInt32) :
    s.importedMessage? text index.toNat =
      (TextSheet.message? text index <|> s.container.messageText? index) := by
  rw [importedMessage?, placeMessage?_of_lt index.toNat_lt, UInt32.ofNat_toNat]

theorem lookup_map_toNat (edits : List (UInt32 × String)) (p : Nat) :
    (edits.map fun edit ↦ (edit.1.toNat, edit.2)).lookup p =
      if p < UInt32.size then edits.lookup (.ofNat p) else none := by
  induction edits with
  | nil => simp
  | cons edit later ih =>
    have hlt := edit.1.toNat_lt
    rw [List.map_cons, List.lookup_cons, List.lookup_cons, ih]
    by_cases hp : p < UInt32.size
    · have hkey : (p == edit.1.toNat) = (UInt32.ofNat p == edit.1) := by
        rw [Bool.eq_iff_iff, beq_iff_eq, beq_iff_eq, ← UInt32.toNat_inj,
          UInt32.toNat_ofNat_of_lt' hp]
      rw [hkey, if_pos hp, if_pos hp]
    · have hkey : (p == edit.1.toNat) = false := by
        rw [beq_eq_false_iff_ne]
        rintro rfl
        exact hp hlt
      rw [hkey, if_neg hp, if_neg hp]

theorem editedMessage?_of_readMessages (he : TextSheet.readMessages text count = .ok edits)
    (p : Nat) : s.editedMessage? edits p = s.importedMessage? text p := by
  obtain ⟨-, rfl⟩ := TextSheet.readMessages_eq_ok_iff.1 he
  rw [editedMessage?, ← List.map_reverse, lookup_map_toNat, TextSheet.lookup_reverse_messages,
    importedMessage?, placeMessage?]

/-- Edited messages are the imported ones, each in the place of its entry. -/
theorem getElem?_of_editedMessages (he : TextSheet.readMessages text count = .ok edits)
    {texts : List String} (h : s.editedMessages edits = .ok texts) {p : Nat}
    (hp : p < s.container.messages.size) :
    ∃ t, s.importedMessage? text p = some t ∧ texts[p]? = some t := by
  obtain ⟨hall, rfl⟩ := editedMessages_eq_ok_iff.1 h
  obtain ⟨t, ht⟩ := Option.isSome_iff_exists.1 (hall p hp)
  refine ⟨t, (editedMessage?_of_readMessages he p).symm.trans ht, ?_⟩
  rw [List.getElem?_map, List.getElem?_range hp, Option.map_some, ht, Option.getD_some]

/-- A container whose messages have been replaced by the imported ones. -/
structure Reworded (s : Script) (c : Container) (text : String) : Prop where
  rest : c = { s.container with messages := c.messages, messageData := c.messageData }
  size : c.messages.size = s.container.messages.size
  entries : ∀ p < s.container.messages.size,
    ∃ t e', s.importedMessage? text p = some t ∧ c.messages[p]? = some e' ∧
      c.entryBytes? e' = some (textBytes (s.container.messageTerminated (.ofNat p)) t)

theorem reworded_of_repackMessages (he : TextSheet.readMessages text count = .ok edits)
    {texts : List String} (ht : s.editedMessages edits = .ok texts) {c : Container}
    (hc : s.container.repackMessages texts = .ok c) : Reworded s c text := by
  obtain ⟨hrest, hsize, -⟩ := Container.repackMessages_eq_ok hc
  refine ⟨hrest, hsize, fun p hp ↦ ?_⟩
  obtain ⟨t, ht, htext⟩ := getElem?_of_editedMessages he ht hp
  obtain ⟨e', he', hbytes⟩ := Container.exists_entry_of_repackMessages hc htext
  exact ⟨t, e', ht, he', hbytes⟩

namespace Reworded

variable {c : Container}

theorem walk (h : Reworded s c text) (names : NameIndex) :
    c.walk names = s.container.walk names := by
  rw [h.rest]
  rfl

theorem stringAt (h : Reworded s c text) : c.stringAt = s.container.stringAt := by
  rw [h.rest]
  rfl

/-- Every message that could be shown still can. -/
theorem isSome_messageText? (h : Reworded s c text) {index : UInt32}
    (hs : (s.container.messageText? index).isSome) : (c.messageText? index).isSome := by
  obtain ⟨t, ht⟩ := Option.isSome_iff_exists.1 hs
  obtain ⟨e, he, -⟩ := Option.bind_eq_some_iff.1 ht
  obtain ⟨hlt, -⟩ := Array.getElem?_eq_some_iff.1 he
  obtain ⟨_, e', -, he', hbytes⟩ := h.entries _ hlt
  rw [(Container.messageText?_of_getElem? he' hbytes).1]
  rfl

/-- The references of a container with new messages are found again. -/
theorem references (h : Reworded s c text) (hs : s.Current) :
    ∃ is, s.container.walk s.names = ⟨is, none⟩ ∧
      (∀ call ∈ calls s.container.functions is, c.Shows call) ∧
      s.references.messages =
        (calls s.container.functions is).map (s.container.messageRef s.container.stringAt) ∧
      c.references s.names = .ok ⟨s.references.strings,
        (calls s.container.functions is).map (c.messageRef s.container.stringAt)⟩ := by
  obtain ⟨is, hw, hshows, hrefs⟩ := Container.references_eq_ok_iff.1 hs.references
  have hfunctions : c.functions = s.container.functions := by rw [h.rest]
  have hshows' : ∀ call ∈ calls s.container.functions is, c.Shows call :=
    fun call hcall hn ↦ h.isSome_messageText? (hshows call hcall hn)
  refine ⟨is, hw, hshows', by rw [hrefs], ?_⟩
  rw [Container.references_eq_ok_iff, h.walk, hfunctions, h.stringAt, hrefs]
  exact ⟨is, hw, hshows', rfl⟩

theorem exists_commit (h : Reworded s c text) (hs : s.Current) : ∃ s', s.commit c = .ok s' := by
  obtain ⟨is, -, -, -, hrefs⟩ := h.references hs
  exact exists_commit_of_references hrefs

/-- A message without a text in the sheet reads as before. -/
theorem kept (h : Reworded s c text) {index : UInt32}
    (hnone : TextSheet.message? text index = none)
    (heven : ∀ e, s.container.messages[index.toNat]? = some e → e.length.toNat % 2 = 0) :
    c.messageText? index = s.container.messageText? index ∧
      c.messageTerminated index = s.container.messageTerminated index := by
  cases he : s.container.messages[index.toNat]? with
  | none =>
    have hnone' : c.messages[index.toNat]? = none := by
      rw [Array.getElem?_eq_none_iff] at he ⊢
      rwa [h.size]
    simp [Container.messageText?, Container.messageTerminated, he, hnone']
  | some e =>
    obtain ⟨hlt, -⟩ := Array.getElem?_eq_some_iff.1 he
    obtain ⟨t, e', ht, he', hbytes'⟩ := h.entries _ hlt
    rw [importedMessage?_toNat, hnone, Container.messageText?, he] at ht
    rw [UInt32.ofNat_toNat] at hbytes'
    obtain ⟨bytes, hbytes, rfl, -, hlength⟩ := Container.exists_entryBytes ht
    obtain ⟨htext, hterminated⟩ := Container.messageText?_of_getElem? he hbytes
    obtain ⟨htext', hterminated'⟩ := Container.messageText?_of_getElem? he' hbytes'
    rw [hterminated] at htext' hterminated'
    obtain ⟨hsame, hbare⟩ := rewritten (hlength ▸ heven e he)
    rw [htext, hterminated, htext', hterminated']
    exact ⟨congrArg some hbare, hsame⟩

/-- A terminated message reads as its new text if that leaves no span open. -/
theorem replaced (h : Reworded s c text) {index : UInt32} {t : String}
    (ht : TextSheet.message? text index = some t)
    (hclosed : spanOpenAfter false (Utf16.encode t.toList) = false)
    (hterminated : s.container.messageTerminated index = true) :
    c.messageText? index = some t ∧ c.messageTerminated index = true := by
  have hlt : index.toNat < s.container.messages.size := by
    refine Nat.not_le.1 fun hge ↦ ?_
    rw [(Container.messageText?_of_le hge).2] at hterminated
    cases hterminated
  obtain ⟨t', e', ht', he', hbytes⟩ := h.entries _ hlt
  rw [importedMessage?_toNat, ht] at ht'
  obtain rfl := Option.some.inj ht'
  rw [UInt32.ofNat_toNat, hterminated] at hbytes
  obtain ⟨hends, hbare⟩ := terminated_textBytes hclosed
  obtain ⟨htext, hterminated'⟩ := Container.messageText?_of_getElem? he' hbytes
  rw [htext, hterminated', hbare, hends]
  exact ⟨rfl, rfl⟩

end Reworded

/-- What an import of messages makes of a script with these instructions. -/
structure MessagesImported (s s' : Script) (text : String) (is : List Instruction) : Prop where
  kept : ∀ index, (index = nameIndex ∨
      ∀ e ∈ TextSheet.entries TextSheet.editMark text, e.key ≠ index) →
    (∀ e, s.container.messages[index.toNat]? = some e → e.length.toNat % 2 = 0) →
    s'.container.messageText? index = s.container.messageText? index ∧
      s'.container.messageTerminated index = s.container.messageTerminated index
  replaced : Markup.bell ∉ text.toList → ∀ index t, index ≠ nameIndex →
    TextSheet.lastText? TextSheet.editMark text index = some t →
    s.container.messageTerminated index = true →
    s'.container.messageText? index = some (Markup.unescapeMessage (String.ofList t)) ∧
      s'.container.messageTerminated index = true
  names_ignored : ∀ text',
    (∀ line ∈ TextSheet.markedLines TextSheet.editMark text',
      ∃ e, TextSheet.entry? TextSheet.editMark line.1.tail = some e) →
    (TextSheet.entries TextSheet.editMark text').filter (·.key ≠ nameIndex) =
      (TextSheet.entries TextSheet.editMark text).filter (·.key ≠ nameIndex) →
    s.importMessages text' = .ok s'
  walk : s.container.walk s.names = ⟨is, none⟩
  walk_after : s'.container.walk s'.names = ⟨is, none⟩
  places : s'.references.messages.map (fun m ↦ (m.address, m.index)) =
    s.references.messages.map fun m ↦ (m.address, m.index)
  texts : ∀ m ∈ s'.references.messages, m.index ≠ nameIndex →
    s'.container.messageText? m.index = some m.text
  messages_after :
    s.references.messages =
      (calls s.container.functions is).map (s.container.messageRef s.container.stringAt) ∧
    s'.references.messages =
      (calls s.container.functions is).map (s'.container.messageRef s.container.stringAt) ∧
    ∀ call ∈ calls s.container.functions is, s'.container.Shows call
  strings_after : s'.references.strings = s.references.strings
  names_after : s'.names = s.names
  rest : s'.container = { s.container with
    messages := s'.container.messages, messageData := s'.container.messageData }
  messages_size : s'.container.messages.size = s.container.messages.size

/-- Lines for names have no say in what a sheet of messages edits. -/
theorem readMessages_of_filter_eq {text' : String}
    (he : TextSheet.readMessages text count = .ok edits)
    (hlines : ∀ line ∈ TextSheet.markedLines TextSheet.editMark text',
      ∃ e, TextSheet.entry? TextSheet.editMark line.1.tail = some e)
    (hsame : (TextSheet.entries TextSheet.editMark text').filter (·.key ≠ nameIndex) =
      (TextSheet.entries TextSheet.editMark text).filter (·.key ≠ nameIndex)) :
    TextSheet.readMessages text' count = .ok edits := by
  obtain ⟨haccepted, rfl⟩ := TextSheet.readMessages_eq_ok_iff.1 he
  refine TextSheet.readMessages_eq_ok_iff.2 ⟨fun line hline ↦ ?_, ?_⟩
  · obtain ⟨e, hentry⟩ := hlines line hline
    refine ⟨e, hentry, Decidable.or_iff_not_imp_left.2 fun hname ↦ ?_⟩
    have hmem : e ∈ (TextSheet.entries TextSheet.editMark text').filter (·.key ≠ nameIndex) :=
      List.mem_filter.2 ⟨List.mem_filterMap.2 ⟨line, hline, hentry⟩, decide_eq_true hname⟩
    rw [hsame] at hmem
    obtain ⟨other, hother, hentry'⟩ := List.mem_filterMap.1 (List.mem_filter.1 hmem).1
    obtain ⟨e', he', hkey⟩ := haccepted other hother
    obtain rfl := Option.some.inj (hentry'.symm.trans he')
    exact hkey.resolve_left hname
  · rw [TextSheet.filterMap_eq_map_filter, TextSheet.filterMap_eq_map_filter, hsame]

theorem bell_not_mem_of_lastText? {index : UInt32} {t : List Char}
    (h : Markup.bell ∉ text.toList)
    (ht : TextSheet.lastText? TextSheet.editMark text index = some t) : Markup.bell ∉ t := by
  obtain ⟨e, he, rfl⟩ := Option.map_eq_some_iff.1 ht
  exact fun hb ↦ h (TextSheet.mem_of_mem_entries
    (List.mem_reverse.1 (List.mem_of_find?_eq_some he)) hb)

/-- An import of messages gives each message of the sheet its last text there, and changes nothing
but the message table and the message segment. -/
theorem importMessages_confined (hs : s.Reachable) (h : s.importMessages text = .ok s') :
    ∃ is, MessagesImported s s' text is := by
  obtain ⟨edits, ts, c, hedits, htexts, hrepack, hcommit⟩ := importMessages_eq_ok_iff.1 h
  have hr := reworded_of_repackMessages hedits htexts hrepack
  have hrest := hr.rest
  have hcurrent := hs.current.commit (by rw [hrest]) (by rw [hrest]) hcommit
  obtain ⟨is, hw, hshows, hbefore, hafter⟩ := hr.references hs.current
  obtain ⟨rfl, hnames, hrefs⟩ := commit_eq_ok_iff.1 hcommit
  have hrefs' := Except.ok.inj (hrefs.symm.trans hafter)
  refine ⟨is, {
    kept := fun index hnone ↦ hr.kept (TextSheet.message?_eq_none_iff.2 hnone)
    replaced := fun hbell index t hname ht ↦ ?_
    names_ignored := fun text' hlines hsame ↦ importMessages_eq_ok_iff.2
      ⟨edits, ts, _, readMessages_of_filter_eq hedits hlines hsame, htexts, hrepack, hcommit⟩
    walk := hw
    walk_after := by rw [hnames, hr.walk, hw]
    places := ?_
    texts := fun m hm hn ↦ messageText?_of_mem_references hcurrent hm hn
    messages_after := ⟨hbefore, by rw [hrefs'], hshows⟩
    strings_after := by rw [hrefs']
    names_after := hnames
    rest := hrest
    messages_size := hr.size }⟩
  · have hmessage : TextSheet.message? text index =
        some (Markup.unescapeMessage (String.ofList t)) := by
      rw [TextSheet.message?, if_neg hname, ht, Option.map_some]
    apply hr.replaced hmessage
    apply Markup.spanOpenAfter_unescapeMessage
    rw [String.toList_ofList]
    exact bell_not_mem_of_lastText? hbell ht
  · rw [hrefs', hbefore, List.map_map, List.map_map]
    refine List.map_congr_left fun call _ ↦ ?_
    simp only [Function.comp_apply, Container.messageRef]
    cases call.native <;> rfl

/-- A terminated message, which is shown, and one that ends in half a surrogate pair. -/
def wordingSample : Container where
  symbols := #[⟨"_ms_message", [], 0, 0, 0, 2⟩]
  functions := #[⟨"_ms_message", 0, 0, 0⟩]
  code := #[0x0F, 0x2D, 0, 0, 0, 0]
  messages := #[⟨0, 4⟩, ⟨4, 4⟩]
  messageData := #[0x61, 0, 0, 0, 0x62, 0, 0, 0xD8]

/-- One message is given twice, the second time with a brace inside of brackets. -/
theorem importMessages_confined_wording :
    ∃ s s' is, s.Reachable ∧
      s.importMessages "◆0◆x\n◆AAAAAAAA◆y\n◆0◆[a{v}b](g)\n" = .ok s' ∧
      MessagesImported s s' "◆0◆x\n◆AAAAAAAA◆y\n◆0◆[a{v}b](g)\n" is ∧
      s.references.messages = [⟨1, 0, "a"⟩] ∧
      s'.references.messages = [⟨1, 0, "\x07\x01a\x07\x08v\x00b\ng\x00"⟩] ∧
      s.container.messageText? 1 = some "b\uFFFD" ∧
      s'.container.messageText? 1 = some "b\uFFFD" := by
  let text := "◆0◆x\n◆AAAAAAAA◆y\n◆0◆[a{v}b](g)\n"
  have hrun : (ofContainer wordingSample).toOption.bind (fun s ↦
      (s.importMessages text).toOption.map fun s' ↦ (s.references.messages,
        s'.references.messages, s.container.messageText? 1, s'.container.messageText? 1)) =
      some ([⟨1, 0, "a"⟩], [⟨1, 0, "\x07\x01a\x07\x08v\x00b\ng\x00"⟩], some "b\uFFFD",
        some "b\uFFFD") := by decide +kernel
  obtain ⟨s, hs, hrun⟩ := Option.bind_eq_some_iff.1 hrun
  obtain ⟨s', hs', hrun⟩ := Option.map_eq_some_iff.1 hrun
  simp only [Prod.mk.injEq] at hrun
  obtain ⟨hbefore, hafter, hown, hown'⟩ := hrun
  have hreach : s.Reachable := .ofContainer (toOption_eq_some_iff.1 hs)
  have h := toOption_eq_some_iff.1 hs'
  obtain ⟨is, himported⟩ := importMessages_confined hreach h
  exact ⟨s, s', is, hreach, h, himported, hbefore, hafter, hown, hown'⟩

end Script

end NovelScript
