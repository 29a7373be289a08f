import NovelScript.Proofs.Sheet.Entries

/-!
The grammar of sheets. A sheet is read just when each of its marked lines is an entry with a key
that is accepted, and otherwise the first line that is not is reported with its number
(`reads_grammar`).
-/

namespace NovelScript

open Outcome Text

namespace TextSheet

/-- A text without the byte order mark at its front, if there is one. -/
def dropOrderMark : List Char → List Char
  | '\uFEFF' :: rest => rest
  | text => text

/-- A line that is an entry. Its key is written in hexadecimal digits, and its text is all that stands
behind the second mark. -/
def IsEntry (mark : Char) (line : List Char) (e : Entry) : Prop :=
  ∃ key, line = mark :: key ++ mark :: e.text ∧ Numeral.Denotes .sixteen key e.key.toNat

/-- What a reader of sheets goes by: the mark of its lines, the keys that it accepts, what it reports
for another key at a line, and what it makes of the entries. -/
structure Rules where
  mark : Char
  mark_not_digit : Numeral.hexValue? mark = none
  Accepts : UInt32 → Prop
  refusal : UInt32 → Nat → SheetError
  edits : List Entry → List (UInt32 × String)

/-- Messages of a table of `count`. The names of characters are accepted, but make no edits. -/
def messageRules (count : Nat) : Rules where
  mark := editMark
  mark_not_digit := by decide
  Accepts key := key = nameIndex ∨ key.toNat < count
  refusal := .unknownIndex
  edits es := (es.filter (·.key ≠ nameIndex)).map fun e ↦
    (e.key, Markup.unescapeMessage (String.ofList e.text))

def stringRules (known : Std.TreeSet UInt32) : Rules where
  mark := referenceMark
  mark_not_digit := by decide
  Accepts key := key ∈ known
  refusal := .unknownOffset
  edits es := es.map fun e ↦ (e.key, Markup.unescapeString (String.ofList e.text))

theorem IsEntry.head? {mark : Char} {line : List Char} {e : Entry} (h : IsEntry mark line e) :
    line.head? = some mark := by
  obtain ⟨key, rfl, -⟩ := h
  rfl

theorem isEntry_iff {mark : Char} (hm : Numeral.hexValue? mark = none) {line : List Char}
    (hline : line.head? = some mark) {e : Entry} :
    IsEntry mark line e ↔ entry? mark line.tail = some e := by
  obtain ⟨rest, rfl⟩ := List.head?_eq_some_iff.1 hline
  rw [List.tail_cons, entry?_eq_some_iff hm]
  simp only [IsEntry, List.cons_append, List.cons.injEq, true_and]

namespace Rules

/-- Lines in which everything that is marked is an entry with a key that is accepted, and these
entries. -/
inductive Lists (rules : Rules) : List (List Char) → List Entry → Prop
  | nil : Lists rules [] []
  | other {line : List Char} {ls : List (List Char)} {es : List Entry}
      (h : line.head? ≠ some rules.mark) (hlater : Lists rules ls es) : Lists rules (line :: ls) es
  | entry {line : List Char} {e : Entry} {ls : List (List Char)} {es : List Entry}
      (h : IsEntry rules.mark line e) (hkey : rules.Accepts e.key) (hlater : Lists rules ls es) :
      Lists rules (line :: ls) (e :: es)

/-- What is wrong with a marked line, and how it is reported. -/
inductive Flaw (rules : Rules) (number : Nat) (line : List Char) : SheetError → Prop
  | badLine (hmark : line.head? = some rules.mark) (h : ∀ e, ¬IsEntry rules.mark line e) :
      Flaw rules number line (.badLine number)
  | refused {e : Entry} (h : IsEntry rules.mark line e) (hkey : ¬rules.Accepts e.key) :
      Flaw rules number line (rules.refusal e.key number)

/-- The first line with a flaw. The lines count from `first` on, whether they are marked or not. -/
def Fails (rules : Rules) (first : Nat) (ls : List (List Char)) (error : SheetError) : Prop :=
  ∃ before line after, ls = before ++ line :: after ∧ (∃ es, rules.Lists before es) ∧
    rules.Flaw (first + before.length) line error

/-- The outcome that the rules demand for a list of lines. -/
structure Decides (rules : Rules) (ls : List (List Char))
    (outcome : Except SheetError (List (UInt32 × String))) : Prop where
  ok_iff : ∀ found, outcome = .ok found ↔ ∃ es, rules.Lists ls es ∧ found = rules.edits es
  error_iff : ∀ error, outcome = .error error ↔ rules.Fails 0 ls error

variable {rules : Rules} {line : List Char} {ls : List (List Char)} {first : Nat}
  {error : SheetError}

theorem lists_iff {es : List Entry} (first : Nat) :
    rules.Lists ls es ↔
      (∀ line ∈ (ls.zipIdx first).filter fun p ↦ p.1.head? == some rules.mark,
        ∃ e, entry? rules.mark line.1.tail = some e ∧ rules.Accepts e.key) ∧
      es = ((ls.zipIdx first).filter fun p ↦ p.1.head? == some rules.mark).filterMap fun line ↦
        entry? rules.mark line.1.tail := by
  induction ls generalizing first es with
  | nil =>
    constructor
    · intro h
      cases h
      simp
    · intro h
      obtain ⟨-, rfl⟩ := h
      exact .nil
  | cons line later ih =>
    rw [List.zipIdx_cons]
    by_cases hline : line.head? = some rules.mark
    · rw [List.filter_cons_of_pos (by simp [hline]), List.forall_mem_cons, List.filterMap_cons]
      constructor
      · intro h
        cases h with
        | other hother => exact absurd hline hother
        | entry h hkey hlater =>
          have he := (isEntry_iff rules.mark_not_digit hline).1 h
          obtain ⟨hall, hes⟩ := (ih (first + 1)).1 hlater
          refine ⟨⟨⟨_, he, hkey⟩, hall⟩, ?_⟩
          rw [he, hes]
      · intro h
        obtain ⟨⟨⟨e, he, hkey⟩, hall⟩, rfl⟩ := h
        rw [he]
        exact .entry ((isEntry_iff rules.mark_not_digit hline).2 he) hkey
          ((ih (first + 1)).2 ⟨hall, rfl⟩)
    · rw [List.filter_cons_of_neg (by simp [hline]), ← ih (first + 1)]
      constructor
      · intro h
        cases h with
        | other _ hlater => exact hlater
        | entry h => exact absurd h.head? hline
      · exact .other hline

/-- The edits of a sheet, if its lines are as the rules demand. -/
theorem exists_lists_iff {text : String} {found : List (UInt32 × String)} :
    (∃ es, rules.Lists (lines (dropOrderMark text.toList)) es ∧ found = rules.edits es) ↔
      (∀ line ∈ markedLines rules.mark text,
        ∃ e, entry? rules.mark line.1.tail = some e ∧ rules.Accepts e.key) ∧
      found = rules.edits (entries rules.mark text) := by
  constructor
  · intro h
    obtain ⟨es, hes, rfl⟩ := h
    obtain ⟨hall, rfl⟩ := (lists_iff 0).1 hes
    exact ⟨hall, rfl⟩
  · intro h
    exact ⟨_, (lists_iff 0).2 ⟨h.1, rfl⟩, h.2⟩

theorem Flaw.head? (h : rules.Flaw first line error) : line.head? = some rules.mark := by
  cases h with
  | badLine hmark => exact hmark
  | refused h => exact h.head?

theorem IsEntry.unique {e e' : Entry} (h : IsEntry rules.mark line e)
    (h' : IsEntry rules.mark line e') : e = e' := by
  have he := (isEntry_iff rules.mark_not_digit h.head?).1 h
  have he' := (isEntry_iff rules.mark_not_digit h.head?).1 h'
  exact Option.some.inj (he.symm.trans he')

theorem Flaw.unique {error' : SheetError} (h : rules.Flaw first line error)
    (h' : rules.Flaw first line error') : error = error' := by
  cases h with
  | badLine _ hnone =>
    cases h' with
    | badLine => rfl
    | refused he => exact absurd he (hnone _)
  | refused he =>
    cases h' with
    | badLine _ hnone => exact absurd he (hnone _)
    | refused he' => rw [IsEntry.unique he he']

/-- A line with a flaw is in no list of entries. -/
theorem Flaw.not_lists {es : List Entry} (h : rules.Flaw first line error) :
    ¬rules.Lists (line :: ls) es := by
  intro hlists
  cases hlists with
  | other hother => exact hother h.head?
  | entry he hkey =>
    cases h with
    | badLine _ hnone => exact hnone _ he
    | refused he' hkey' => exact hkey' (IsEntry.unique he he' ▸ hkey)

theorem Flaw.fails_cons_iff {error' : SheetError} (h : rules.Flaw first line error) :
    rules.Fails first (line :: ls) error' ↔ error = error' := by
  constructor
  · intro hfails
    obtain ⟨before, flawed, after, hsplit, ⟨es, hes⟩, hflaw⟩ := hfails
    cases before with
    | nil =>
      obtain ⟨rfl, -⟩ := List.cons.inj hsplit
      exact h.unique hflaw
    | cons head before =>
      obtain ⟨rfl, -⟩ := List.cons.inj hsplit
      exact absurd hes h.not_lists
  · rintro rfl
    exact ⟨[], line, ls, rfl, ⟨[], .nil⟩, h⟩

/-- Behind a line without a flaw the search goes on. -/
theorem fails_cons_iff (h : ∀ ls, (∃ es, rules.Lists (line :: ls) es) ↔ ∃ es, rules.Lists ls es) :
    rules.Fails first (line :: ls) error ↔ rules.Fails (first + 1) ls error := by
  have hnumber : ∀ before : List (List Char),
      first + (line :: before).length = first + 1 + before.length := by
    intro before
    rw [List.length_cons]
    omega
  constructor
  · intro hfails
    obtain ⟨before, flawed, after, hsplit, hes, hflaw⟩ := hfails
    cases before with
    | nil =>
      obtain ⟨rfl, -⟩ := List.cons.inj hsplit
      obtain ⟨es, hes⟩ := (h []).2 ⟨[], .nil⟩
      exact absurd hes hflaw.not_lists
    | cons head before =>
      obtain ⟨rfl, rfl⟩ := List.cons.inj hsplit
      rw [hnumber] at hflaw
      exact ⟨before, flawed, after, rfl, (h before).1 hes, hflaw⟩
  · intro hfails
    obtain ⟨before, flawed, after, rfl, hes, hflaw⟩ := hfails
    rw [← hnumber] at hflaw
    exact ⟨line :: before, flawed, after, rfl, (h before).2 hes, hflaw⟩

theorem lists_cons_iff_of_other (h : line.head? ≠ some rules.mark) :
    (∃ es, rules.Lists (line :: ls) es) ↔ ∃ es, rules.Lists ls es := by
  constructor
  · intro hlists
    obtain ⟨es, hes⟩ := hlists
    cases hes with
    | other _ hlater => exact ⟨_, hlater⟩
    | entry he => exact absurd he.head? h
  · intro hlists
    obtain ⟨es, hes⟩ := hlists
    exact ⟨es, .other h hes⟩

theorem lists_cons_iff_of_entry {e : Entry} (h : IsEntry rules.mark line e)
    (hkey : rules.Accepts e.key) :
    (∃ es, rules.Lists (line :: ls) es) ↔ ∃ es, rules.Lists ls es := by
  constructor
  · intro hlists
    obtain ⟨es, hes⟩ := hlists
    cases hes with
    | other hother => exact absurd h.head? hother
    | entry _ _ hlater => exact ⟨_, hlater⟩
  · intro hlists
    obtain ⟨es, hes⟩ := hlists
    exact ⟨e :: es, .entry h hkey hes⟩

section Read

variable {α : Type} {accept : Nat → Entry → Except SheetError α}

theorem mapM_eq_error_iff_fails
    (hok : ∀ n e, rules.Accepts e.key → ∃ a, accept n e = .ok a)
    (herror : ∀ n e, ¬rules.Accepts e.key → accept n e = .error (rules.refusal e.key n))
    (first : Nat) :
    ((ls.zipIdx first).filter fun p ↦ p.1.head? == some rules.mark).mapM (fun (line, number) ↦
      match entry? rules.mark line.tail with
      | some entry => accept number entry
      | none => .error (.badLine number)) = .error error ↔ rules.Fails first ls error := by
  induction ls generalizing first with
  | nil =>
    constructor
    · intro h
      cases h
    · intro h
      obtain ⟨before, line, after, hsplit, -⟩ := h
      simp at hsplit
  | cons line later ih =>
    rw [List.zipIdx_cons]
    by_cases hline : line.head? = some rules.mark
    · rw [List.filter_cons_of_pos (by simp [hline]), List.mapM_cons, bind_eq_error_iff]
      simp only [bind_eq_error_iff, ih (first + 1)]
      cases hentry : entry? rules.mark line.tail with
      | none =>
        have hflaw : rules.Flaw first line (.badLine first) := by
          refine .badLine hline fun e he ↦ ?_
          rw [(isEntry_iff rules.mark_not_digit hline).1 he] at hentry
          cases hentry
        rw [hflaw.fails_cons_iff]
        simp
      | some e =>
        have he := (isEntry_iff rules.mark_not_digit hline).2 hentry
        by_cases hkey : rules.Accepts e.key
        · obtain ⟨a, ha⟩ := hok first e hkey
          rw [fails_cons_iff fun ls ↦ lists_cons_iff_of_entry he hkey]
          simp [ha, pure, Except.pure]
        · have hflaw : rules.Flaw first line (rules.refusal e.key first) := .refused he hkey
          rw [hflaw.fails_cons_iff]
          simp [herror first e hkey]
    · rw [List.filter_cons_of_neg (by simp [hline]), ih (first + 1),
        fails_cons_iff fun ls ↦ lists_cons_iff_of_other hline]

theorem read_eq_error_iff
    (hok : ∀ n e, rules.Accepts e.key → ∃ a, accept n e = .ok a)
    (herror : ∀ n e, ¬rules.Accepts e.key → accept n e = .error (rules.refusal e.key n))
    {text : String} :
    read rules.mark accept text = .error error ↔
      rules.Fails 0 (lines (dropOrderMark text.toList)) error :=
  mapM_eq_error_iff_fails hok herror 0

end Read

end Rules

theorem decides_readMessages (text : String) (count : Nat) :
    (messageRules count).Decides (lines (dropOrderMark text.toList)) (readMessages text count) where
  ok_iff found := by
    rw [readMessages_eq_ok_iff, filterMap_eq_map_filter]
    exact (@Rules.exists_lists_iff (messageRules count) text found).symm
  error_iff error := by
    rw [readMessages, bind_eq_error_iff, or_iff_left]
    · apply @Rules.read_eq_error_iff (messageRules count)
      · intro n e hkey
        by_cases hname : e.key = nameIndex
        · exact ⟨none, if_pos hname⟩
        · exact ⟨_, (if_neg hname).trans (if_pos (hkey.resolve_left hname))⟩
      · intro n e hkey
        obtain ⟨hname, hlarge⟩ := not_or.1 hkey
        exact (if_neg hname).trans (if_neg hlarge)
    · intro h
      obtain ⟨_, -, hpure⟩ := h
      cases hpure

theorem decides_readStrings (text : String) (known : Std.TreeSet UInt32) :
    (stringRules known).Decides (lines (dropOrderMark text.toList)) (readStrings text known) where
  ok_iff found := by
    rw [readStrings_eq_ok_iff]
    exact (@Rules.exists_lists_iff (stringRules known) text found).symm
  error_iff error := by
    apply @Rules.read_eq_error_iff (stringRules known)
    · intro n e hkey
      exact ⟨_, if_pos hkey⟩
    · intro n e hkey
      exact if_neg hkey

/-- Both readers accept just what their rules accept, whatever the text, and report the first flaw of
any other. -/
theorem reads_grammar (text : String) :
    ∃ ls, InLines (dropOrderMark text.toList) ls ∧
      (∀ count, (messageRules count).Decides ls (readMessages text count)) ∧
      ∀ known, (stringRules known).Decides ls (readStrings text known) :=
  ⟨_, inLines_iff.2 rfl, decides_readMessages text, decides_readStrings text⟩

/-- Zeros in front and letters of either case make the same key, and a text may hold marks. -/
example : readMessages "\uFEFF◇x\r\n◆000000001◆a◆b\n◆aaaaAAAA◆name\n" 2 = .ok [(1, "a◆b")] := by
  rfl

example : readMessages "\n◆+1◆a" 2 = .error (.badLine 1) := by rfl

example : readMessages "◆1◆\n◆2◆" 2 = .error (.unknownIndex 2 1) := by rfl

end TextSheet

end NovelScript
