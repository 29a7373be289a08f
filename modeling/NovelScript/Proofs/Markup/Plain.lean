import NovelScript.Markup.Plain
import NovelScript.Proofs.Markup.Turning
import NovelScript.Proofs.Text.NullFree

/-!
The notation of strings. Each of three control characters is written as a backslash and a letter
(`escape_eq_flatMap`). They are read back one letter after the other, which finds what was written
unless the text itself has a backslash before such a letter.
-/

namespace NovelScript.Markup

open Text

namespace Plain

/-- The control characters, each with its letter. -/
def letters : List (Char × Char) := [('\t', 't'), ('\r', 'r'), ('\n', 'n')]

/-- A character in a notation that has letters for the given ones. -/
def written (pairs : List (Char × Char)) (c : Char) : List Char :=
  (pairs.lookup c).elim [c] fun l ↦ ['\\', l]

variable {k l c : Char} {later pairs : List (Char × Char)}

theorem written_cons_self : written ((k, l) :: later) k = ['\\', l] := by simp [written]

theorem written_cons_of_ne (h : c ≠ k) : written ((k, l) :: later) c = written later c := by
  rw [written, List.lookup_cons, beq_eq_false_iff_ne.2 h]
  rfl

theorem written_cases (pairs : List (Char × Char)) (c : Char) :
    written pairs c = [c] ∨ ∃ l, (c, l) ∈ pairs ∧ written pairs c = ['\\', l] := by
  induction pairs with
  | nil => exact .inl rfl
  | cons pair later ih =>
    obtain ⟨k, l⟩ := pair
    by_cases hc : c = k
    · subst hc
      exact .inr ⟨l, List.mem_cons_self, written_cons_self⟩
    · rw [written_cons_of_ne hc]
      obtain hw | ⟨m, hm, hw⟩ := ih
      · exact .inl hw
      · exact .inr ⟨m, List.mem_cons_of_mem _ hm, hw⟩

theorem escape_turns (c : Char) : Turns escape [c] (written letters c) := by
  -- the passes for other control characters leave what is written alone
  have hcopy : ∀ {d l : Char} {new : List Char}, '\\' ≠ d → l ≠ d →
      Turns (replace [d] new) ['\\', l] ['\\', l] := fun hs hl ↦
    (replace_turns_copy hs).append (replace_turns_copy hl)
  by_cases ht : c = '\t'
  · subst ht
    exact ((replace_single_turns '\t' ['\\', 't']).comp (hcopy (by decide) (by decide))).comp
      (hcopy (by decide) (by decide))
  by_cases hr : c = '\r'
  · subst hr
    exact ((replace_turns_copy ht).comp (replace_single_turns '\r' ['\\', 'r'])).comp
      (hcopy (by decide) (by decide))
  by_cases hn : c = '\n'
  · subst hn
    exact ((replace_turns_copy ht).comp (replace_turns_copy hr)).comp
      (replace_single_turns '\n' ['\\', 'n'])
  rw [letters, written_cons_of_ne ht, written_cons_of_ne hr, written_cons_of_ne hn]
  exact ((replace_turns_copy ht).comp (replace_turns_copy hr)).comp (replace_turns_copy hn)

theorem escape_eq_flatMap (text : List Char) : escape text = text.flatMap (written letters) :=
  (Turns.ofChars fun c _ ↦ escape_turns c).whole rfl

/-- A text in notation takes up one line. -/
theorem not_mem_escape (text : List Char) : '\n' ∉ escape text ∧ '\r' ∉ escape text :=
  ⟨not_mem_replace_single (by decide) _,
    not_mem_replace (by decide) (not_mem_replace_single (by decide) _)⟩

/-- None of the characters that have a letter is left. -/
theorem not_mem_escape_of_mem {c : Char} (h : c ∈ ['\t', '\r', '\n']) (text : List Char) :
    c ∉ escape text := by
  rcases List.mem_cons.1 h with rfl | h
  · refine not_mem_replace (by decide) (not_mem_replace (by decide) ?_)
    exact not_mem_replace_single (by decide) text
  · rcases List.mem_cons.1 h with rfl | h
    · exact (not_mem_escape text).2
    · obtain rfl := List.mem_singleton.1 h
      exact (not_mem_escape text).1

theorem slash_before {rest : List Char} (h : [l] <+: rest) : ['\\', l] <:+: '\\' :: rest := by
  have hpair : ['\\', l] <+: '\\' :: rest := List.cons_prefix_cons.2 ⟨rfl, h⟩
  exact hpair.isInfix

/-- A backslash before anything but the letter that is looked for stays. -/
theorem replace_slash {rest : List Char} (h : ¬[l] <+: rest) :
    replace ['\\', l] [k] ('\\' :: rest) = '\\' :: replace ['\\', l] [k] rest :=
  substitute_of_none (if_neg fun hp ↦
    h (List.cons_prefix_cons.1 (List.isPrefixOf_iff_prefix.1 hp)).2)

/-- A text in notation starts with a letter only where the text itself does. -/
theorem prefix_of_prefix_flatMap_written {text : List Char} (hl : l ≠ '\\')
    (h : [l] <+: text.flatMap (written pairs)) : [l] <+: text := by
  cases text with
  | nil => exact h
  | cons c rest =>
    rw [List.flatMap_cons] at h
    obtain hw | ⟨m, -, hw⟩ := written_cases pairs c
    · rw [hw] at h
      obtain ⟨rfl, -⟩ := List.cons_prefix_cons.1 h
      exact List.cons_prefix_cons.2 ⟨rfl, List.nil_prefix⟩
    · rw [hw] at h
      exact absurd (List.cons_prefix_cons.1 h).1 hl

/-- Reading back one letter, where the text has no backslash before it. -/
theorem replace_flatMap_written {text : List Char} (hk : k ≠ '\\') (hl : l ≠ '\\')
    (hlater : ∀ p ∈ later, p.1 ≠ k ∧ p.2 ≠ l ∧ p.2 ≠ '\\') (h : ¬['\\', l] <:+: text) :
    replace ['\\', l] [k] (text.flatMap (written ((k, l) :: later))) =
      text.flatMap (written later) := by
  induction text with
  | nil => rfl
  | cons c rest ih =>
    have hrest := ih fun hi ↦ h (List.infix_cons hi)
    rw [List.flatMap_cons, List.flatMap_cons, ← hrest]
    by_cases hc : c = k
    · subst hc
      have hnone : written later c = [c] := by
        obtain hw | ⟨m, hm, -⟩ := written_cases later c
        · exact hw
        · exact absurd rfl (hlater _ hm).1
      rw [written_cons_self, hnone]
      exact turns_of_some (fun rest ↦ if_pos (by simp)) _
    · rw [written_cons_of_ne hc]
      obtain hw | ⟨m, hm, hw⟩ := written_cases later c
      · rw [hw]
        by_cases hs : c = '\\'
        · subst hs
          refine replace_slash fun hp ↦ h ?_
          exact slash_before (prefix_of_prefix_flatMap_written hl hp)
        · exact replace_turns_copy hs _
      · obtain ⟨-, hml, hms⟩ := hlater _ hm
        have hletter : Turns (replace ['\\', l] [k]) [m] [m] := replace_turns_copy hms
        have hslash := @replace_slash k l ([m] ++ rest.flatMap (written ((k, l) :: later)))
          fun hp ↦ hml.symm (List.cons_prefix_cons.1 hp).1
        rw [hw]
        exact hslash.trans (congrArg ('\\' :: ·) (hletter _))

/-- After reading back a letter, a text starts with it or with what it started with before. -/
theorem prefix_of_prefix_substituteAfter {m : Char} {text : List Char}
    (h : [m] <+: substituteAfter (fun ahead ↦
      if ['\\', l].isPrefixOf ahead then some ⟨[k], 2⟩ else none) 0 text) :
    m = k ∨ [m] <+: text := by
  cases text with
  | nil => exact .inr h
  | cons c rest =>
    rw [substituteAfter] at h
    split at h
    · rename_i r hr
      split at hr <;> cases hr
      exact .inl (List.cons_prefix_cons.1 h).1
    · obtain ⟨rfl, -⟩ := List.cons_prefix_cons.1 h
      exact .inr (List.cons_prefix_cons.2 ⟨rfl, List.nil_prefix⟩)

theorem unescape_escape {text : List Char} (h : ∀ l ∈ ['t', 'r', 'n'], ¬['\\', l] <:+: text) :
    unescape (escape text) = text := by
  rw [unescape, escape_eq_flatMap, letters,
    replace_flatMap_written (by decide) (by decide) (by decide) (h 't' (by simp)),
    replace_flatMap_written (by decide) (by decide) (by decide) (h 'r' (by simp)),
    replace_flatMap_written (by decide) (by decide) (by simp) (h 'n' (by simp))]
  exact List.flatMap_singleton' text

/-- Reading back a letter leaves no backslash before it, and puts none before another one. -/
theorem not_infix_replace_slash {m : Char} {text : List Char} (hs : k ≠ '\\') (hm : k ≠ m)
    (h : m = l ∨ ¬['\\', m] <:+: text) : ¬['\\', m] <:+: replace ['\\', l] [k] text := by
  have hafter : ∀ skip, ¬['\\', m] <:+: substituteAfter (fun ahead ↦
      if ['\\', l].isPrefixOf ahead then some ⟨[k], 2⟩ else none) skip text := by
    induction text with
    | nil => exact fun skip hi ↦ by cases skip <;> simp [substituteAfter] at hi
    | cons c rest ih =>
      have hrest := ih (h.imp_right fun hn hi ↦ hn (List.infix_cons hi))
      intro skip hi
      cases skip with
      | succ skip => exact hrest skip hi
      | zero =>
        rw [substituteAfter] at hi
        split at hi
        · rename_i r hr
          split at hr <;> cases hr
          obtain hp | hi := List.infix_cons_iff.1 hi
          · exact hs (List.cons_prefix_cons.1 hp).1.symm
          · exact hrest _ hi
        · rename_i hnone
          obtain hp | hi := List.infix_cons_iff.1 hi
          · -- the letter stood behind this backslash before
            obtain ⟨rfl, hafter⟩ := List.cons_prefix_cons.1 hp
            obtain hk | hbefore := prefix_of_prefix_substituteAfter hafter
            · exact hm hk.symm
            · obtain rfl | hn := h
              · have hfound : ['\\', m] <+: '\\' :: rest := List.cons_prefix_cons.2 ⟨rfl, hbefore⟩
                rw [if_pos (List.isPrefixOf_iff_prefix.2 hfound)] at hnone
                cases hnone
              · exact hn (slash_before hbefore)
          · exact hrest 0 hi
  exact hafter 0

/-- A text that has been read back has nothing more to be read back. -/
theorem not_infix_unescape (text : List Char) :
    ∀ l ∈ ['t', 'r', 'n'], ¬['\\', l] <:+: unescape text := by
  simp only [List.forall_mem_cons, List.not_mem_nil, false_implies, implies_true, and_true]
  refine ⟨?_, ?_, ?_⟩
  · apply not_infix_replace_slash (by decide) (by decide)
    refine .inr (not_infix_replace_slash (by decide) (by decide) ?_)
    exact .inr (not_infix_replace_slash (by decide) (by decide) (.inl rfl))
  · apply not_infix_replace_slash (by decide) (by decide)
    exact .inr (not_infix_replace_slash (by decide) (by decide) (.inl rfl))
  · exact not_infix_replace_slash (by decide) (by decide) (.inl rfl)

end Plain

theorem nullFree_escapeString {text : String} (h : NullFree text.toList) :
    NullFree (escapeString text).toList := by
  rw [escapeString, String.toList_ofList]
  exact not_mem_replace (by decide) (not_mem_replace (by decide) (not_mem_replace (by decide) h))

theorem nullFree_unescapeString {text : List Char} (h : NullFree text) :
    NullFree (unescapeString (String.ofList text)).toList := by
  rw [unescapeString, String.toList_ofList, String.toList_ofList]
  refine not_mem_replace (by decide) (not_mem_replace (by decide) ?_)
  exact not_mem_replace (by decide) h

/-- A string comes back from its notation if it has no backslash before a letter. -/
theorem unescapeString_escapeString {text : String}
    (h : ∀ l ∈ ['t', 'r', 'n'], ¬['\\', l] <:+: text.toList) :
    unescapeString (escapeString text) = text := by
  rw [unescapeString, escapeString, String.toList_ofList, Plain.unescape_escape h,
    String.ofList_toList]

theorem unescapeString_escapeString_unescapeString (text : String) :
    unescapeString (escapeString (unescapeString text)) = unescapeString text := by
  apply unescapeString_escapeString
  rw [unescapeString, String.toList_ofList]
  exact Plain.not_infix_unescape text.toList

/-- A string in notation is one line without tabs. It is read back just when it has no backslash
before a letter, and what was read from a notation never has. -/
theorem escapeString_reversible_iff (text : String) :
    (∀ c ∈ ['\t', '\r', '\n'], c ∉ (escapeString text).toList) ∧
      (unescapeString (escapeString text) = text ↔
        ∀ l ∈ ['t', 'r', 'n'], ¬['\\', l] <:+: text.toList) ∧
      unescapeString (escapeString (unescapeString text)) = unescapeString text := by
  refine ⟨fun c hc ↦ ?_, ⟨fun h ↦ ?_, unescapeString_escapeString⟩,
    unescapeString_escapeString_unescapeString text⟩
  · rw [escapeString, String.toList_ofList]
    exact Plain.not_mem_escape_of_mem hc text.toList
  · rw [← h, unescapeString, String.toList_ofList]
    exact Plain.not_infix_unescape _

end NovelScript.Markup
