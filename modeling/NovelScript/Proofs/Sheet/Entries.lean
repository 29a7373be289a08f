import NovelScript.Proofs.Markup.Tokens
import NovelScript.Proofs.Outcome
import NovelScript.Proofs.Text.Lines
import NovelScript.Proofs.Text.Numeral
import NovelScript.TextSheet

/-!
What a sheet says. Reading a sheet gives its entries in order, if all of its marked lines are
entries that are accepted (`read_eq_ok_iff`).
-/

namespace NovelScript

open Outcome

namespace TextSheet

theorem key?_eq_some_iff {digits : List Char} {key : UInt32} :
    key? digits = some key ↔ Numeral.Denotes .sixteen digits key.toNat := by
  constructor
  · intro h
    unfold key? at h
    split at h
    · rename_i hall
      have hread := toOption_eq_some_iff.1 h
      have hne : digits ≠ [] := by
        rintro rfl
        cases hread
      have hsign : '+' ∉ digits := fun hm ↦ by
        have hdigit := List.all_eq_true.1 hall _ hm
        revert hdigit
        decide
      rw [Numeral.readWord_eq hne hsign] at hread
      obtain ⟨n, hn, rfl⟩ := map_eq_ok_iff.1 hread
      obtain ⟨hdenotes, hlt⟩ := (Numeral.readDigits_eq_ok_iff hne).1 hn
      rwa [UInt32.toNat_ofNat_of_lt' hlt]
    · cases h
  · intro h
    have hall : digits.all (Numeral.hexValue? · |>.isSome) = true := by
      refine List.all_eq_true.2 fun c hc ↦ Option.isSome_iff_ne_none.2 fun hnone ↦ ?_
      exact h.not_mem hnone hc
    rw [key?, if_pos hall, h.readWord]
    rfl

/-- The key of an entry ends at the next mark, as a mark is no digit. -/
theorem entry?_eq_some_iff {mark : Char} (hm : Numeral.hexValue? mark = none) {rest : List Char}
    {e : Entry} :
    entry? mark rest = some e ↔
      ∃ key, rest = key ++ mark :: e.text ∧ Numeral.Denotes .sixteen key e.key.toNat := by
  constructor
  · intro h
    unfold entry? at h
    split at h
    · cases h
    · rename_i d text hdrop
      obtain ⟨word, hword, rfl⟩ := Option.map_eq_some_iff.1 h
      have hd : d = mark := by
        have hstop := List.head?_dropWhile_not (fun c ↦ decide (c ≠ mark)) rest
        rw [hdrop] at hstop
        simpa using hstop
      subst hd
      refine ⟨_, ?_, key?_eq_some_iff.1 hword⟩
      rw [← hdrop]
      exact List.takeWhile_append_dropWhile.symm
  · intro h
    obtain ⟨key, rfl, hkey⟩ := h
    have hfree : ∀ c ∈ key, decide (c ≠ mark) = true := by
      intro c hc
      refine decide_eq_true fun he ↦ ?_
      exact hkey.not_mem hm (he ▸ hc)
    have hsplit : (key ++ mark :: e.text).takeWhile (fun c ↦ decide (c ≠ mark)) = key ∧
        (key ++ mark :: e.text).dropWhile (fun c ↦ decide (c ≠ mark)) = mark :: e.text :=
      (Markup.takeWhile_dropWhile_eq_iff (by simp)).2 ⟨rfl, hfree⟩
    unfold entry?
    rw [hsplit.1, hsplit.2]
    dsimp only
    rw [key?_eq_some_iff.2 hkey]
    rfl

def entries (mark : Char) (text : String) : List Entry :=
  (markedLines mark text).filterMap fun line ↦ entry? mark line.1.tail

def lastText? (mark : Char) (text : String) (key : UInt32) : Option (List Char) :=
  ((entries mark text).reverse.find? (·.key == key)).map (·.text)

theorem mem_of_mem_entries {mark : Char} {text : String} {e : Entry} {c : Char}
    (he : e ∈ entries mark text) (hc : c ∈ e.text) : c ∈ text.toList := by
  obtain ⟨⟨line, number⟩, hline, hentry⟩ := List.mem_filterMap.1 he
  have hinline : c ∈ line := by
    unfold entry? at hentry
    split at hentry
    · cases hentry
    · rename_i d rest hdrop
      obtain ⟨key, -, rfl⟩ := Option.map_eq_some_iff.1 hentry
      have hmem : c ∈ line.tail.dropWhile (· ≠ mark) := by
        rw [hdrop]
        exact List.mem_cons_of_mem _ hc
      exact List.mem_of_mem_tail (List.dropWhile_subset _ hmem)
  have hfirst := List.fst_mem_of_mem_zipIdx (List.mem_filter.1 hline).1
  have hlines := Text.mem_of_mem_lines hfirst hinline
  split at hlines
  · rename_i rest htext
    rw [htext]
    exact List.mem_cons_of_mem _ hlines
  · exact hlines

variable {α : Type}

theorem read_eq_ok_iff {mark : Char} {accept : Nat → Entry → Except SheetError α}
    {P : Entry → Prop} {g : Entry → α} (h : ∀ n e a, accept n e = .ok a ↔ P e ∧ a = g e)
    {text : String} {results : List α} :
    read mark accept text = .ok results ↔
      (∀ line ∈ markedLines mark text, ∃ e, entry? mark line.1.tail = some e ∧ P e) ∧
        results = (entries mark text).map g := by
  unfold read entries
  induction markedLines mark text generalizing results with
  | nil => simp [pure_eq_ok_iff]
  | cons line later ih =>
    obtain ⟨line, number⟩ := line
    rw [List.mapM_cons, bind_eq_ok_iff]
    dsimp only
    cases he : entry? mark line.tail with
    | none => simp [he]
    | some e =>
      simp only [h, bind_eq_ok_iff, pure_eq_ok_iff, ih, List.forall_mem_cons, he,
        List.filterMap_cons, List.map_cons, Option.some.injEq, exists_eq_left']
      constructor
      · intro h
        obtain ⟨a, ⟨hp, rfl⟩, rest, ⟨hall, rfl⟩, rfl⟩ := h
        exact ⟨⟨hp, hall⟩, rfl⟩
      · intro h
        obtain ⟨⟨hp, hall⟩, rfl⟩ := h
        exact ⟨_, ⟨hp, rfl⟩, _, ⟨hall, rfl⟩, rfl⟩

theorem readStrings_eq_ok_iff {text : String} {known : Std.TreeSet UInt32}
    {edits : List (UInt32 × String)} :
    readStrings text known = .ok edits ↔
      (∀ line ∈ markedLines referenceMark text,
        ∃ e, entry? referenceMark line.1.tail = some e ∧ e.key ∈ known) ∧
      edits = (entries referenceMark text).map fun e ↦
        (e.key, Markup.unescapeString (String.ofList e.text)) := by
  apply read_eq_ok_iff
  intro n e edit
  rw [Markup.unescapeString, String.toList_ofList]
  split <;> rename_i h
  · simp [h, eq_comm]
  · simp [h]

theorem readMessages_eq_ok_iff {text : String} {count : Nat} {edits : List (UInt32 × String)} :
    readMessages text count = .ok edits ↔
      (∀ line ∈ markedLines editMark text, ∃ e, entry? editMark line.1.tail = some e ∧
        (e.key = nameIndex ∨ e.key.toNat < count)) ∧
      edits = (entries editMark text).filterMap fun e ↦ if e.key = nameIndex then none
        else some (e.key, Markup.unescapeMessage (String.ofList e.text)) := by
  have haccept : ∀ (n : Nat) (e : Entry) (a : Option (UInt32 × String)),
      (if e.key = nameIndex then .ok none
        else if e.key.toNat < count then
          .ok (some (e.key, String.ofList (Markup.Message.unescape e.text)))
        else .error (.unknownIndex e.key n) :
          Except SheetError (Option (UInt32 × String))) = .ok a ↔
      (e.key = nameIndex ∨ e.key.toNat < count) ∧ a = if e.key = nameIndex then none
        else some (e.key, Markup.unescapeMessage (String.ofList e.text)) := by
    intro n e a
    rw [Markup.unescapeMessage, String.toList_ofList]
    by_cases hname : e.key = nameIndex
    · simp [hname, eq_comm]
    · by_cases hlt : e.key.toNat < count
      · simp [hname, hlt, eq_comm]
      · simp [hname, hlt]
  unfold readMessages
  rw [bind_eq_ok_iff]
  simp only [pure_eq_ok_iff]
  constructor
  · intro h
    obtain ⟨found, hfound, rfl⟩ := h
    obtain ⟨hall, rfl⟩ := (read_eq_ok_iff haccept).1 hfound
    exact ⟨hall, List.filterMap_map⟩
  · intro h
    obtain ⟨hall, rfl⟩ := h
    refine ⟨_, (read_eq_ok_iff haccept).2 ⟨hall, rfl⟩, ?_⟩
    rw [List.filterMap_map]
    rfl

/-- Looking up from the back finds the last entry with a key. -/
theorem lookup_reverse_map (read : Entry → String) (es : List Entry) (key : UInt32) :
    (es.map fun e ↦ (e.key, read e)).reverse.lookup key =
      (es.reverse.find? (·.key == key)).map read := by
  rw [← List.map_reverse]
  induction es.reverse with
  | nil => rfl
  | cons e later ih =>
    rw [List.map_cons, List.lookup_cons, List.find?_cons, ih]
    by_cases h : e.key = key
    · simp [h]
    · have hkey : (e.key == key) = false := beq_eq_false_iff_ne.2 h
      have hkey' : (key == e.key) = false := beq_eq_false_iff_ne.2 (Ne.symm h)
      rw [hkey, hkey']

/-- Of the edits with an offset the last one counts. -/
theorem lookup_reverse_edits {text : String} (offset : UInt32) :
    (((entries referenceMark text).map fun e ↦
      (e.key, Markup.unescapeString (String.ofList e.text))).reverse.lookup offset) =
      (lastText? referenceMark text offset).map fun t ↦
        Markup.unescapeString (String.ofList t) := by
  rw [lookup_reverse_map, lastText?, Option.map_map]
  rfl

theorem lastText?_eq_none_iff {mark : Char} {text : String} {key : UInt32} :
    lastText? mark text key = none ↔ ∀ e ∈ entries mark text, e.key ≠ key := by
  simp [lastText?]

/-- The last text that a sheet of messages has for an index. Names are not messages. -/
def message? (text : String) (index : UInt32) : Option String :=
  if index = nameIndex then none
  else (lastText? editMark text index).map fun t ↦ Markup.unescapeMessage (String.ofList t)

theorem message?_eq_none_iff {text : String} {index : UInt32} :
    message? text index = none ↔
      index = nameIndex ∨ ∀ e ∈ entries editMark text, e.key ≠ index := by
  unfold message?
  split <;> rename_i h
  · simp [h]
  · rw [Option.map_eq_none_iff, lastText?_eq_none_iff, or_iff_right h]

/-- The edits of messages come from the entries that are not for names. -/
theorem filterMap_eq_map_filter (es : List Entry) :
    (es.filterMap fun e ↦ if e.key = nameIndex then none
      else some (e.key, Markup.unescapeMessage (String.ofList e.text))) =
        (es.filter (·.key ≠ nameIndex)).map fun e ↦
          (e.key, Markup.unescapeMessage (String.ofList e.text)) := by
  rw [← List.filterMap_eq_map, List.filterMap_filter]
  refine congrArg (List.filterMap · es) (funext fun e ↦ ?_)
  by_cases hname : e.key = nameIndex <;> simp [hname]

/-- Of the edits with an index the last one counts. -/
theorem lookup_reverse_messages {text : String} (index : UInt32) :
    ((entries editMark text).filterMap fun e ↦ if e.key = nameIndex then none
      else some (e.key, Markup.unescapeMessage (String.ofList e.text))).reverse.lookup index =
        message? text index := by
  rw [filterMap_eq_map_filter, lookup_reverse_map, ← List.filter_reverse, List.find?_filter,
    message?]
  split <;> rename_i hname
  · rw [Option.map_eq_none_iff, List.find?_eq_none]
    simp [hname]
  · rw [lastText?, Option.map_map]
    refine congrArg (Option.map _ <| List.find? · _) (funext fun e ↦ ?_)
    by_cases hkey : e.key = index <;> simp [hkey, hname]

end TextSheet

end NovelScript
