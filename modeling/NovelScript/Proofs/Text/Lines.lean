import NovelScript.Text.Lines

/-!
Lines and words of a text that is made of lines and words.
-/

namespace NovelScript.Text

theorem linesFrom_append {line text rest : List Char} (h : '\n' ∉ text) :
    linesFrom line (text ++ rest) = linesFrom (text.reverse ++ line) rest := by
  induction text generalizing line with
  | nil => rfl
  | cons c later ih =>
    obtain ⟨hc, hlater⟩ := not_or.1 (mt List.mem_cons.2 h)
    rw [List.cons_append, linesFrom, if_neg (Ne.symm hc), ih hlater, List.reverse_cons,
      List.append_assoc]
    rfl

/-- A line without a carriage return at its end, if there is one. -/
def dropReturn (line : List Char) : List Char :=
  if line.getLast? = some '\r' then line.dropLast else line

theorem dropReturn_concat (line : List Char) : dropReturn (line ++ ['\r']) = line := by
  rw [dropReturn, if_pos List.getLast?_concat, List.dropLast_concat]

theorem dropReturn_of_not_mem {line : List Char} (h : '\r' ∉ line) : dropReturn line = line :=
  if_neg fun hlast ↦ h (List.mem_of_getLast? hlast)

theorem closeLine_reverse (line : List Char) : closeLine line.reverse = dropReturn line := by
  obtain rfl | ⟨front, c, rfl⟩ := List.eq_nil_or_concat line
  · rfl
  · rw [List.concat_eq_append, List.reverse_append]
    by_cases hc : c = '\r'
    · subst hc
      rw [dropReturn_concat]
      exact List.reverse_reverse front
    · have hlast : (front ++ [c]).getLast? ≠ some '\r' := by
        rw [List.getLast?_concat]
        exact fun he ↦ hc (Option.some.inj he)
      rw [dropReturn, if_neg hlast]
      unfold closeLine
      split
      · rename_i rest he
        exact absurd (List.cons.inj he).1 hc
      · simp

theorem lines_append {line rest : List Char} (h : '\n' ∉ line) :
    lines (line ++ '\n' :: rest) = dropReturn line :: lines rest := by
  rw [lines, linesFrom_append h, List.append_nil, linesFrom, if_pos rfl, closeLine_reverse, lines]

theorem lines_of_not_mem {line : List Char} (h : '\n' ∉ line) :
    lines line = if line = [] then [] else [line] := by
  have hlines := @linesFrom_append [] line [] h
  rw [List.append_nil, List.append_nil, linesFrom, List.reverse_reverse] at hlines
  rw [lines, hlines]
  cases line <;> simp

/-- A text in lines. Each line ends at its line feed, and a carriage return before that is dropped.
What stands behind the last line feed is a line unless it is empty, and keeps its carriage return. -/
inductive InLines : List Char → List (List Char) → Prop
  | nil : InLines [] []
  | last {line : List Char} (hne : line ≠ []) (h : '\n' ∉ line) : InLines line [line]
  | cons {line rest : List Char} {later : List (List Char)} (h : '\n' ∉ line)
      (hlater : InLines rest later) : InLines (line ++ '\n' :: rest) (dropReturn line :: later)

theorem inLines_iff {text : List Char} {ls : List (List Char)} : InLines text ls ↔ ls = lines text := by
  constructor
  · intro h
    induction h with
    | nil => rfl
    | last hne h => rw [lines_of_not_mem h, if_neg hne]
    | cons h hlater ih => rw [lines_append h, ih]
  · rintro rfl
    have hfrom : ∀ line, '\n' ∉ line → InLines (line ++ text) (linesFrom line.reverse text) := by
      induction text with
      | nil =>
        intro line h
        rw [List.append_nil, linesFrom, List.reverse_reverse]
        cases line with
        | nil => exact .nil
        | cons c line =>
          rw [if_neg (by simp)]
          exact .last (by simp) h
      | cons c rest ih =>
        intro line h
        rw [linesFrom]
        split
        · rename_i hc
          subst hc
          rw [closeLine_reverse]
          exact .cons h (ih [] List.not_mem_nil)
        · rename_i hc
          have hline : '\n' ∉ line ++ [c] := by
            rw [List.mem_append, List.mem_singleton, not_or]
            exact ⟨h, Ne.symm hc⟩
          have hlater := ih (line ++ [c]) hline
          rwa [List.append_assoc, List.reverse_append] at hlater
    exact hfrom [] List.not_mem_nil

/-- Lines that are ended one by one are told apart again. -/
theorem lines_flatMap {ls : List (List Char)} (h : ∀ l ∈ ls, '\n' ∉ l ∧ '\r' ∉ l) :
    lines (ls.flatMap fun l ↦ l ++ ['\n']) = ls := by
  induction ls with
  | nil => rfl
  | cons l later ih =>
    obtain ⟨hn, hr⟩ := h l List.mem_cons_self
    have hlater := ih fun k hk ↦ h k (List.mem_cons_of_mem _ hk)
    rw [List.flatMap_cons, List.append_assoc, List.singleton_append, lines_append hn,
      dropReturn_of_not_mem hr, hlater]

theorem mem_of_mem_linesFrom {line text l : List Char} {c : Char} (hl : l ∈ linesFrom line text)
    (hc : c ∈ l) : c ∈ line ∨ c ∈ text := by
  induction text generalizing line with
  | nil =>
    rw [linesFrom] at hl
    split at hl
    · cases hl
    · rw [List.mem_singleton.1 hl, List.mem_reverse] at hc
      exact .inl hc
  | cons d rest ih =>
    rw [linesFrom] at hl
    split at hl
    · rcases List.mem_cons.1 hl with rfl | hl
      · refine .inl ?_
        unfold closeLine at hc
        split at hc
        · exact List.mem_cons_of_mem _ (List.mem_reverse.1 hc)
        · exact List.mem_reverse.1 hc
      · exact (ih hl).elim (fun h ↦ by cases h) fun h ↦ .inr (List.mem_cons_of_mem _ h)
    · rcases ih hl with h | h
      · rcases List.mem_cons.1 h with rfl | h
        · exact .inr List.mem_cons_self
        · exact .inl h
      · exact .inr (List.mem_cons_of_mem _ h)

theorem mem_of_mem_lines {text line : List Char} {c : Char} (hl : line ∈ lines text)
    (hc : c ∈ line) : c ∈ text :=
  (mem_of_mem_linesFrom hl hc).elim (fun h ↦ by cases h) id

/-- A text that no blank takes apart. -/
def IsWord (word : List Char) : Prop := word ≠ [] ∧ ∀ c ∈ word, isBlank c = false

theorem wordsFrom_append {word text rest : List Char} (h : ∀ c ∈ text, isBlank c = false) :
    wordsFrom word (text ++ rest) = wordsFrom (text.reverse ++ word) rest := by
  induction text generalizing word with
  | nil => rfl
  | cons c later ih =>
    obtain ⟨hc, hlater⟩ := List.forall_mem_cons.1 h
    rw [List.cons_append, wordsFrom, hc, if_neg Bool.false_ne_true, ih hlater, List.reverse_cons,
      List.append_assoc]
    rfl

/-- Blanks within a line. -/
def IsGap (gap : List Char) : Prop := ∀ c ∈ gap, isBlank c = true ∧ c ≠ '\n'

theorem words_gap {gap rest : List Char} (h : IsGap gap) : words (gap ++ rest) = words rest := by
  induction gap with
  | nil => rfl
  | cons c later ih =>
    obtain ⟨⟨hc, -⟩, hlater⟩ := List.forall_mem_cons.1 h
    rw [List.cons_append, words, wordsFrom, if_pos hc]
    exact ih hlater

theorem words_word {word rest : List Char} (h : IsWord word)
    (hnext : ∀ c ∈ rest.head?, isBlank c = true) : words (word ++ rest) = word :: words rest := by
  have hfull : (word.reverse ++ []).isEmpty = false := by simp [h.1]
  rw [words, wordsFrom_append h.2]
  cases rest with
  | nil =>
    rw [wordsFrom, hfull]
    simp [words, wordsFrom]
  | cons c rest =>
    have hc : isBlank c = true := hnext c rfl
    rw [wordsFrom, if_pos hc, hfull, words, wordsFrom, if_pos hc]
    simp

/-- A text on one line and its words, set apart by blanks. -/
inductive Spaced : List Char → List (List Char) → Prop
  | nil {gap : List Char} (h : IsGap gap) : Spaced gap []
  | cons {gap word rest : List Char} {later : List (List Char)} (hgap : IsGap gap)
      (hword : IsWord word) (hnext : ∀ c ∈ rest.head?, isBlank c = true)
      (hrest : Spaced rest later) : Spaced (gap ++ (word ++ rest)) (word :: later)

theorem Spaced.words {text : List Char} {ws : List (List Char)} (h : Spaced text ws) :
    words text = ws := by
  induction h with
  | nil h =>
    have hwords := @words_gap _ [] h
    rwa [List.append_nil] at hwords
  | cons hgap hword hnext hrest ih => rw [words_gap hgap, words_word hword hnext, ih]

theorem Spaced.not_mem {text : List Char} {ws : List (List Char)} (h : Spaced text ws) :
    '\n' ∉ text := by
  induction h with
  | nil h => exact fun hm ↦ (h _ hm).2 rfl
  | cons hgap hword hnext hrest ih =>
    rw [List.mem_append, List.mem_append, not_or, not_or]
    refine ⟨fun hm ↦ (hgap _ hm).2 rfl, fun hm ↦ ?_, ih⟩
    have hblank := hword.2 _ hm
    revert hblank
    decide

theorem Spaced.gap_append {gap text : List Char} {ws : List (List Char)} (hgap : IsGap gap)
    (h : Spaced text ws) : Spaced (gap ++ text) ws := by
  have happend : ∀ {after : List Char}, IsGap after → IsGap (gap ++ after) := by
    intro after hafter c hc
    obtain hc | hc := List.mem_append.1 hc
    · exact hgap c hc
    · exact hafter c hc
  cases h with
  | nil h => exact .nil (happend h)
  | cons hgap' hword hnext hrest =>
    rw [← List.append_assoc]
    exact .cons (happend hgap') hword hnext hrest

theorem spaced_intercalate {ws : List (List Char)} (h : ∀ w ∈ ws, IsWord w) :
    Spaced ([' '].intercalate ws) ws := by
  have hnone : IsGap [] := by simp [IsGap]
  have hblank : IsGap [' '] := by simp [IsGap, isBlank]
  induction ws with
  | nil => exact .nil hnone
  | cons w later ih =>
    obtain ⟨hw, hlater⟩ := List.forall_mem_cons.1 h
    cases later with
    | nil =>
      have hlast : Spaced ([] ++ (w ++ [])) [w] := .cons hnone hw (by simp) (.nil hnone)
      rw [List.nil_append, List.append_nil] at hlast
      rwa [List.intercalate_singleton]
    | cons v later =>
      rw [List.intercalate_cons_cons, List.append_assoc]
      exact .cons hnone hw (by simp [isBlank]) ((ih hlater).gap_append hblank)

/-- The words of a text are those that its blanks set apart, and no others. -/
theorem spaced_iff {text : List Char} {ws : List (List Char)} :
    Spaced text ws ↔ words text = ws ∧ '\n' ∉ text := by
  constructor
  · intro h
    exact ⟨h.words, h.not_mem⟩
  · intro h
    obtain ⟨rfl, hline⟩ := h
    have hnone : IsGap [] := by simp [IsGap]
    -- at a blank, or inside a word that is given in reverse
    have hfrom : Spaced text (wordsFrom [] text) ∧ ∀ word, IsWord word.reverse →
        Spaced (word.reverse ++ text) (wordsFrom word text) := by
      induction text with
      | nil =>
        refine ⟨.nil hnone, fun word hword ↦ ?_⟩
        have hlast : Spaced ([] ++ (word.reverse ++ [])) [word.reverse] :=
          .cons hnone hword (by simp) (.nil hnone)
        rw [wordsFrom, if_neg (by simpa using hword.1)]
        exact hlast
      | cons c rest ih =>
        obtain ⟨hc, hrest⟩ := not_or.1 (mt List.mem_cons.2 hline)
        obtain ⟨hgap, hinside⟩ := ih hrest
        simp only [wordsFrom]
        by_cases hblank : isBlank c = true
        · have hfirst : IsGap [c] := List.forall_mem_singleton.2 ⟨hblank, Ne.symm hc⟩
          have hnext : Spaced (c :: rest) (wordsFrom [] rest) := hgap.gap_append hfirst
          rw [if_pos hblank]
          refine ⟨hnext, fun word hword ↦ ?_⟩
          rw [if_pos hblank, if_neg (by simpa using hword.1)]
          exact .cons hnone hword (by simp [hblank]) hnext
        · rw [if_neg hblank]
          have hplain : isBlank c = false := Bool.eq_false_iff.2 hblank
          refine ⟨hinside [c] ⟨by simp, by simp [hplain]⟩, fun word hword ↦ ?_⟩
          have hlonger : IsWord (c :: word).reverse := by
            refine ⟨by simp, fun d hd ↦ ?_⟩
            rw [List.reverse_cons, List.mem_append, List.mem_singleton] at hd
            obtain hd | rfl := hd
            · exact hword.2 d hd
            · exact hplain
          have hlater := hinside (c :: word) hlonger
          rw [List.reverse_cons, List.append_assoc] at hlater
          rw [if_neg hblank]
          exact hlater
    exact hfrom.1

/-- Blanks at the end of a text do not count. -/
theorem wordsFrom_concat {word text : List Char} {c : Char} (hc : isBlank c = true) :
    wordsFrom word (text ++ [c]) = wordsFrom word text := by
  induction text generalizing word with
  | nil =>
    cases word <;> simp [wordsFrom, hc]
  | cons d later ih => simp only [List.cons_append, wordsFrom, ih]

theorem words_dropReturn (line : List Char) : words (dropReturn line) = words line := by
  obtain rfl | ⟨front, c, rfl⟩ := List.eq_nil_or_concat line
  · rfl
  · rw [List.concat_eq_append]
    by_cases hc : c = '\r'
    · subst hc
      rw [dropReturn_concat, words, words, wordsFrom_concat (by decide)]
    · have hlast : (front ++ [c]).getLast? ≠ some '\r' := by
        rw [List.getLast?_concat]
        exact fun he ↦ hc (Option.some.inj he)
      rw [dropReturn, if_neg hlast]

/-- A word that has begun goes on to its first blank. -/
theorem exists_wordsFrom_eq_cons {word : List Char} (hne : word ≠ []) (text : List Char) :
    ∃ tail later, wordsFrom word text = (word.reverse ++ tail) :: later := by
  induction text generalizing word with
  | nil => exact ⟨[], [], by simp [wordsFrom, hne]⟩
  | cons c rest ih =>
    rw [wordsFrom]
    split
    · exact ⟨[], wordsFrom [] rest, by simp [hne]⟩
    · obtain ⟨tail, later, h⟩ := ih (List.cons_ne_nil c word)
      exact ⟨c :: tail, later, by simp [h]⟩

end NovelScript.Text
