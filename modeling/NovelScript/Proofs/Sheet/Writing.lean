import NovelScript.Proofs.Markup.Plain
import NovelScript.Proofs.Sheet.Entries
import NovelScript.Proofs.Text.Numeral

/-!
Sheets that are read as they were written. Every entry comes back with its key and its text in
notation, in order, whatever the texts hold (`readStrings_writeStrings`,
`readMessages_writeMessages`).
-/

namespace NovelScript

open Outcome

/-- A text in notation takes up one line. -/
theorem Markup.Message.not_mem_escape (text : List Char) :
    '\n' ∉ escape text ∧ '\r' ∉ escape text :=
  ⟨Text.not_mem_replace (by decide) (Text.not_mem_replace_single (by decide) _),
    Text.not_mem_replace_single (by decide) _⟩

namespace TextSheet

variable {mark : Char}

/-- A line without its end. -/
def Entry.body (mark : Char) (e : Entry) : List Char :=
  mark :: Numeral.hexDigits 8 e.key.toNat ++ mark :: e.text

theorem entry?_body (hm : Numeral.hexValue? mark = none) (e : Entry) :
    entry? mark (e.body mark).tail = some e :=
  (entry?_eq_some_iff hm).2 ⟨_, rfl, Numeral.denotes_hexDigits e.key⟩

theorem not_mem_body {e : Entry} {c : Char} (hc : c ≠ mark) (hd : Numeral.hexValue? c = none)
    (ht : c ∉ e.text) : c ∉ e.body mark := by
  have hdigits : c ∉ Numeral.hexDigits 8 e.key.toNat :=
    (Numeral.denotes_hexDigits e.key).not_mem hd
  simp [Entry.body, hc, hdigits, ht]

/-- A line of a written sheet: it is empty, or an entry whose text stays on the line. -/
inductive IsWritten : List Char → Prop
  | empty : IsWritten []
  | body (mark : Char) (e : Entry) (hmark : mark = referenceMark ∨ mark = editMark)
      (htext : '\n' ∉ e.text ∧ '\r' ∉ e.text) : IsWritten (e.body mark)

namespace IsWritten

variable {l : List Char}

theorem not_mem (h : IsWritten l) : '\n' ∉ l ∧ '\r' ∉ l := by
  cases h with
  | empty => simp
  | body mark e hmark htext =>
    have hne : '\n' ≠ mark ∧ '\r' ≠ mark := by
      obtain rfl | rfl := hmark <;> decide
    exact ⟨not_mem_body hne.1 (by decide) htext.1, not_mem_body hne.2 (by decide) htext.2⟩

theorem head?_ne (h : IsWritten l) : l.head? ≠ some '\uFEFF' := by
  cases h with
  | empty => simp
  | body mark e hmark htext =>
    obtain rfl | rfl := hmark <;> simp [Entry.body, referenceMark, editMark]

end IsWritten

theorem markedLines_ofList {ls : List (List Char)} (hls : ∀ l ∈ ls, IsWritten l) :
    markedLines mark (String.ofList (ls.flatMap fun l ↦ l ++ ['\n'])) =
      ls.zipIdx.filter fun p ↦ p.1.head? == some mark := by
  have hlines : Text.lines (ls.flatMap fun l ↦ l ++ ['\n']) = ls :=
    Text.lines_flatMap fun l hl ↦ (hls l hl).not_mem
  have hfirst : ∀ rest, ls.flatMap (fun l ↦ l ++ ['\n']) ≠ '\uFEFF' :: rest := by
    intro rest he
    cases ls with
    | nil => cases he
    | cons l later =>
      cases l with
      | nil => cases he
      | cons c l =>
        refine (hls _ List.mem_cons_self).head?_ne ?_
        rw [List.head?_cons, (List.cons.inj he).1]
  rw [markedLines, String.toList_ofList]
  split
  · rename_i rest he
    exact absurd he (hfirst rest)
  · rw [hlines]

/-- The marked lines of a sheet, if these are the bodies of some entries. -/
theorem entries_ofList {ls : List (List Char)} {es : List Entry} (hls : ∀ l ∈ ls, IsWritten l)
    (hm : Numeral.hexValue? mark = none)
    (hes : ls.filter (fun l ↦ l.head? == some mark) = es.map (·.body mark)) :
    entries mark (String.ofList (ls.flatMap fun l ↦ l ++ ['\n'])) = es ∧
      ∀ line ∈ markedLines mark (String.ofList (ls.flatMap fun l ↦ l ++ ['\n'])),
        ∃ e ∈ es, entry? mark line.1.tail = some e := by
  have hmarked : (markedLines mark (String.ofList (ls.flatMap fun l ↦ l ++ ['\n']))).map Prod.fst =
      es.map (·.body mark) := by
    have hfst := List.filter_map (f := Prod.fst) (p := fun l ↦ l.head? == some mark)
      (l := ls.zipIdx)
    rw [List.zipIdx_map_fst] at hfst
    rw [markedLines_ofList hls, ← hes]
    exact hfst.symm
  constructor
  · have hentries : entries mark (String.ofList (ls.flatMap fun l ↦ l ++ ['\n'])) =
        (es.map (·.body mark)).filterMap fun l ↦ entry? mark l.tail := by
      rw [entries, ← hmarked, List.filterMap_map]
      rfl
    rw [hentries, List.filterMap_map]
    simp only [Function.comp_def, entry?_body hm, List.filterMap_some]
  · intro line hline
    have hfirst := List.mem_map_of_mem (f := Prod.fst) hline
    rw [hmarked] at hfirst
    obtain ⟨e, he, hbody⟩ := List.mem_map.1 hfirst
    exact ⟨e, he, hbody ▸ entry?_body hm e⟩

def stringEntry (p : UInt32 × String) : Entry := ⟨p.1, Markup.Plain.escape p.2.toList⟩

/-- The lines of a sheet of strings. -/
def stringLines (strings : List (UInt32 × String)) : List (List Char) :=
  strings.map fun p ↦ (stringEntry p).body referenceMark

theorem writeStrings_eq (strings : List (UInt32 × String)) :
    writeStrings strings = String.ofList ((stringLines strings).flatMap fun l ↦ l ++ ['\n']) := by
  rw [writeStrings, stringLines, List.flatMap_map]
  rfl

theorem isWritten_of_mem_stringLines {strings : List (UInt32 × String)} {l : List Char}
    (h : l ∈ stringLines strings) : IsWritten l := by
  obtain ⟨p, -, rfl⟩ := List.mem_map.1 h
  exact .body _ _ (.inl rfl) (Markup.Plain.not_mem_escape _)

/-- The sheet of some strings gives each of them back, as its notation is read. -/
theorem readStrings_writeStrings {strings : List (UInt32 × String)} {known : Std.TreeSet UInt32}
    (h : ∀ p ∈ strings, p.1 ∈ known) :
    readStrings (writeStrings strings) known =
      .ok (strings.map fun p ↦ (p.1, Markup.unescapeString (Markup.escapeString p.2))) := by
  have hes : (stringLines strings).filter (fun l ↦ l.head? == some referenceMark) =
      (strings.map stringEntry).map (·.body referenceMark) := by
    rw [List.map_map, List.filter_eq_self.2]
    · rfl
    · intro l hl
      obtain ⟨p, -, rfl⟩ := List.mem_map.1 hl
      simp [Entry.body]
  obtain ⟨hentries, hmarked⟩ :=
    entries_ofList (fun l ↦ isWritten_of_mem_stringLines) (by decide) hes
  rw [← writeStrings_eq] at hentries hmarked
  refine readStrings_eq_ok_iff.2 ⟨fun line hline ↦ ?_, ?_⟩
  · obtain ⟨e, he, hentry⟩ := hmarked line hline
    obtain ⟨p, hp, rfl⟩ := List.mem_map.1 he
    exact ⟨_, hentry, h p hp⟩
  · rw [hentries, List.map_map]
    rfl

def messageEntry (m : MessageRef) : Entry := ⟨m.index, Markup.Message.escape m.text.toList⟩

theorem messageEntry_text (m : MessageRef) :
    (messageEntry m).text = Markup.Message.escape m.text.toList := by
  rw [messageEntry]

/-- The lines of a sheet of messages, three for each of them. -/
def messageLines (messages : List MessageRef) : List (List Char) :=
  messages.flatMap fun m ↦
    [(messageEntry m).body referenceMark, (messageEntry m).body editMark, []]

theorem writeMessages_eq (messages : List MessageRef) :
    writeMessages messages =
      String.ofList ((messageLines messages).flatMap fun l ↦ l ++ ['\n']) := by
  rw [writeMessages, messageLines, List.flatMap_assoc]
  refine congrArg (fun f ↦ String.ofList (messages.flatMap f)) (funext fun m ↦ ?_)
  simp [messageEntry, Entry.line, Entry.body]

theorem isWritten_of_mem_messageLines {messages : List MessageRef} {l : List Char}
    (h : l ∈ messageLines messages) : IsWritten l := by
  obtain ⟨m, -, hl⟩ := List.mem_flatMap.1 h
  have htext := Markup.Message.not_mem_escape m.text.toList
  rw [← messageEntry_text] at htext
  simp only [List.mem_cons, List.not_mem_nil, or_false] at hl
  obtain rfl | rfl | rfl := hl
  · exact .body _ _ (.inl rfl) htext
  · exact .body _ _ (.inr rfl) htext
  · exact .empty

/-- The sheet of some messages gives each of them back, as its notation is read, and skips the
names of characters. -/
theorem readMessages_writeMessages {messages : List MessageRef} {count : Nat}
    (h : ∀ m ∈ messages, m.index = nameIndex ∨ m.index.toNat < count) :
    readMessages (writeMessages messages) count =
      .ok (messages.filterMap fun m ↦ if m.index = nameIndex then none
        else some (m.index, Markup.unescapeMessage (Markup.escapeMessage m.text))) := by
  have hes : (messageLines messages).filter (fun l ↦ l.head? == some editMark) =
      (messages.map messageEntry).map (·.body editMark) := by
    rw [messageLines, List.filter_flatMap, List.map_map, List.map_eq_flatMap]
    rfl
  obtain ⟨hentries, hmarked⟩ :=
    entries_ofList (fun l ↦ isWritten_of_mem_messageLines) (by decide) hes
  rw [← writeMessages_eq] at hentries hmarked
  refine readMessages_eq_ok_iff.2 ⟨fun line hline ↦ ?_, ?_⟩
  · obtain ⟨e, he, hentry⟩ := hmarked line hline
    obtain ⟨m, hm, rfl⟩ := List.mem_map.1 he
    exact ⟨_, hentry, h m hm⟩
  · rw [hentries, List.filterMap_map]
    simp only [Function.comp_def, messageEntry, Markup.escapeMessage]
    rfl

/-- Sheets are read as they were written, whatever the texts hold: messages in order and as often as
they stand there, without the names, and strings by ascending offset. -/
theorem read_written {messages : List MessageRef} {count : Nat}
    (h : ∀ m ∈ messages, m.index = nameIndex ∨ m.index.toNat < count)
    (strings : Std.TreeMap UInt32 String) :
    readMessages (writeMessages messages) count =
        .ok ((messages.filter (·.index ≠ nameIndex)).map fun m ↦
          (m.index, Markup.unescapeMessage (Markup.escapeMessage m.text))) ∧
      readStrings (writeStrings strings.toList) (.ofList strings.keys) =
        .ok (strings.toList.map fun p ↦
          (p.1, Markup.unescapeString (Markup.escapeString p.2))) ∧
      strings.toList.Pairwise fun p q ↦ p.1 < q.1 := by
  refine ⟨?_, ?_, ?_⟩
  · rw [readMessages_writeMessages h, ← List.filterMap_eq_map, List.filterMap_filter]
    refine congrArg (fun f ↦ Except.ok (messages.filterMap f)) (funext fun m ↦ ?_)
    by_cases hname : m.index = nameIndex <;> simp [hname]
  · apply readStrings_writeStrings
    intro p hp
    have hkey : p.1 ∈ strings.keys := by
      rw [← Std.TreeMap.map_fst_toList_eq_keys]
      exact List.mem_map_of_mem hp
    rwa [Std.TreeSet.mem_ofList, List.contains_iff_mem]
  · exact Std.TreeMap.ordered_keys_toList.imp fun hlt ↦ Std.compare_eq_lt.1 hlt

/-- A name, and a message with another mark and an end of line in it that is shown twice. -/
def markedMessages : List MessageRef :=
  [⟨0, 0xAAAAAAAA, "◆\r\n"⟩, ⟨5, 1, "\uFEFF◆00000000◆x\r\n"⟩, ⟨9, 1, "◇\x00"⟩]

/-- Strings that start with a byte order mark or look like an entry. -/
def markedStrings : Std.TreeMap UInt32 String :=
  .ofList [((4 : UInt32), "\uFEFF"), (0, "\n◇00000008◇\r")]

theorem read_written_marked :
    (∀ m ∈ markedMessages, m.index = nameIndex ∨ m.index.toNat < 2) ∧
      readMessages (writeMessages markedMessages) 2 =
        .ok [(1, "\uFEFF◆00000000◆x\r\n"), (1, "◇\x00")] ∧
      readStrings (writeStrings markedStrings.toList) (.ofList markedStrings.keys) =
        .ok [(0, "\n◇00000008◇\r"), (4, "\uFEFF")] := by
  have hindex : ∀ m ∈ markedMessages, m.index = nameIndex ∨ m.index.toNat < 2 := by decide
  obtain ⟨hmessages, hstrings, -⟩ := read_written hindex markedStrings
  refine ⟨hindex, hmessages.trans (congrArg Except.ok ?_),
    hstrings.trans (congrArg Except.ok ?_)⟩
  · decide
  · decide

end TextSheet

end NovelScript
