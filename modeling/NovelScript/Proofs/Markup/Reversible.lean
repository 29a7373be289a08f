import NovelScript.Proofs.Markup.Tokens

/-!
Reading notation back. A text of plain tokens comes back from its notation unless a line feed, a
carriage return or a sign is followed by a text in parentheses: `[n](x)` is read as a ruby span.
-/

namespace NovelScript.Markup

open Text

def IsPlain (c : Char) : Prop := c ∉ [null, bell, '\n', '\r', '{', '}', '[', ']']

/-- Characters that a span may hold. -/
def IsInner (c : Char) : Prop := IsPlain c ∧ c ∉ ['\x01', '\x08', '(', ')']

def IsRun (text : List Char) : Prop := text ≠ [] ∧ ∀ c ∈ text, IsInner c

def IsParen (c : Char) : Prop := c = '(' ∨ c = ')'

instance : DecidablePred IsPlain := fun _ ↦ instDecidableNot

instance : DecidablePred IsInner := fun _ ↦ instDecidableAnd

instance : DecidablePred IsRun := fun text ↦ @instDecidableAnd _ _ _ (List.decidableBAll _ text)

instance : DecidablePred IsParen := fun _ ↦ instDecidableOr

namespace Token

def Plain : Token → Prop
  | char c => IsPlain c ∨ c = '\n' ∨ c = '\r'
  | sign _ => True
  | voice body => IsRun body
  | ruby base gloss => IsRun base ∧ IsRun gloss

instance : DecidablePred Plain
  | char _ => instDecidableOr
  | sign _ => isTrue trivial
  | voice body => inferInstanceAs (Decidable (IsRun body))
  | ruby _ _ => instDecidableAnd

def IsMarker : Token → Prop
  | char c => c = '\n' ∨ c = '\r'
  | sign _ => True
  | _ => False

def IsBare : Token → Prop
  | char c => ¬IsParen c
  | ruby _ _ => False
  | _ => True

/-- A token after the voice spans of a notation are read. -/
def voiceRead : Token → List Char
  | voice body => raw (voice body)
  | t => t.written

end Token

/-- A text in parentheses comes first. -/
def InParens (ts : List Token) : Prop :=
  ∃ gloss after, ts = .char '(' :: (gloss ++ .char ')' :: after) ∧ gloss ≠ [] ∧
    ∀ t ∈ gloss, t.IsBare

/-- A marker stands before a text in parentheses, as if that were its gloss. -/
def Glossed (ts : List Token) : Prop :=
  ∃ before marker after, ts = before ++ marker :: after ∧ marker.IsMarker ∧ InParens after

theorem not_glossed_nil : ¬Glossed [] := by
  intro h
  obtain ⟨before, _, _, he, -⟩ := h
  cases before <;> simp at he

theorem glossed_cons_iff {t : Token} {ts : List Token} :
    Glossed (t :: ts) ↔ t.IsMarker ∧ InParens ts ∨ Glossed ts := by
  constructor
  · intro h
    obtain ⟨before, marker, after, he, hm, ha⟩ := h
    cases before with
    | nil =>
      cases he
      exact .inl ⟨hm, ha⟩
    | cons b before =>
      cases he
      exact .inr ⟨before, marker, after, rfl, hm, ha⟩
  · intro h
    rcases h with ⟨hm, ha⟩ | ⟨before, marker, after, rfl, hm, ha⟩
    · exact ⟨[], t, ts, rfl, hm, ha⟩
    · exact ⟨t :: before, marker, after, rfl, hm, ha⟩

/-- Only line feeds and carriage returns have a notation with a bracket. -/
theorem charWritten_eq_self {c : Char} (h : IsPlain c) : charWritten c = [c] := by
  rw [charWritten, if_neg fun hn ↦ h (by simp [hn]), if_neg fun hr ↦ h (by simp [hr])]

theorem flatMap_charWritten {run : List Char} (h : ∀ c ∈ run, IsInner c) :
    run.flatMap charWritten = run := by
  induction run with
  | nil => rfl
  | cons c later ih =>
    have hc := charWritten_eq_self (h c (by simp)).1
    rw [List.flatMap_cons, hc, ih fun d hd ↦ h d (by simp [hd])]
    rfl

/-- Characters of spans are none of those that the notation is made of. -/
theorem IsInner.ne {c d : Char} (h : IsInner c)
    (hd : d ∈ [null, bell, '\n', '\r', '{', '}', '[', ']', '\x01', '\x08', '(', ')']) : c ≠ d := by
  intro h
  subst h
  obtain ⟨hp, hi⟩ := h
  have hsplit : c ∈ [null, bell, '\n', '\r', '{', '}', '[', ']'] ++ ['\x01', '\x08', '(', ')'] := hd
  exact (List.mem_append.1 hsplit).elim hp hi

theorem IsRun.not_mem {run : List Char} (h : IsRun run) {d : Char}
    (hd : d ∈ [null, bell, '\n', '\r', '{', '}', '[', ']', '\x01', '\x08', '(', ')']) : d ∉ run :=
  fun hm ↦ (h.2 d hm).ne hd rfl

theorem forall_not_isParen_iff {text : List Char} :
    (∀ c ∈ text, ¬IsParen c) ↔ '(' ∉ text ∧ ')' ∉ text := by
  constructor
  · intro h
    exact ⟨fun hm ↦ h _ hm (.inl rfl), fun hm ↦ h _ hm (.inr rfl)⟩
  · intro h c hc hp
    rcases hp with rfl | rfl
    · exact h.1 hc
    · exact h.2 hc

theorem Token.Plain.sound {t : Token} (h : t.Plain) : t.Sound := by
  cases t with
  | char c =>
    rcases h with hp | rfl | rfl
    · exact ⟨fun h0 ↦ hp (by simp [h0]), fun h7 ↦ hp (by simp [h7])⟩
    · exact ⟨by decide, by decide⟩
    · exact ⟨by decide, by decide⟩
  | sign g => trivial
  | voice body =>
    exact ⟨h.1, fun c hc ↦ ⟨(h.2 c hc).ne (by simp), (h.2 c hc).ne (by simp),
      (h.2 c hc).ne (by simp)⟩⟩
  | ruby base gloss =>
    obtain ⟨hb, hg⟩ := h
    refine ⟨⟨hb.1, fun c hc ↦ ?_⟩, hg.1, fun c hc ↦ ?_⟩
    · exact ⟨(hb.2 c hc).ne (by simp), (hb.2 c hc).ne (by simp), (hb.2 c hc).ne (by simp),
        (hb.2 c hc).ne (by simp)⟩
    · exact ⟨(hg.2 c hc).ne (by simp), (hg.2 c hc).ne (by simp), (hg.2 c hc).ne (by simp)⟩

/-! Reading the voice spans changes nothing else. -/

theorem readVoice_turns_char {c : Char} (h : c ≠ '{') : Turns (substitute readVoice) [c] [c] :=
  turns_of_none fun rest ↦ by simp [readVoice, braced?, h]

theorem readVoice_turns {t : Token} (h : t.Plain) :
    Turns (substitute readVoice) t.written t.voiceRead := by
  have hcopy : ∀ text : List Char, '{' ∉ text → Turns (substitute readVoice) text text :=
    fun text ht ↦ .copy_of_not_mem (fun _ ↦ readVoice_turns_char) ht
  cases t with
  | char c =>
    apply hcopy
    rcases h with hp | rfl | rfl
    · change '{' ∉ charWritten c
      rw [charWritten_eq_self hp, List.mem_singleton]
      intro he
      exact hp (by simp [← he])
    · decide
    · decide
  | sign g => cases g <;> exact hcopy _ (by decide)
  | voice body =>
    rw [Token.written, flatMap_charWritten h.2]
    apply turns_of_some
    intro rest
    have hr : runUntil? ['{', '}'] '}' (body ++ '}' :: rest) = some (body, rest) :=
      runUntil?_append h.1 (by simp [h.not_mem]) (h.not_mem (by simp))
    have hv : braced? ('{' :: (body ++ '}' :: rest)) = some body := by
      rw [braced?, if_pos rfl, hr]
      rfl
    simp [readVoice, hv, Token.voiceRead, Token.raw]
  | ruby base gloss =>
    have hb : '{' ∉ base := h.1.not_mem (by simp)
    have hg : '{' ∉ gloss := h.2.not_mem (by simp)
    apply hcopy
    rw [Token.written, flatMap_charWritten h.1.2, flatMap_charWritten h.2.2]
    simp [hb, hg]

/-! Reading the ruby spans and the markers. -/

theorem readRuby_turns_char {c : Char} (h : c ≠ '[') : Turns (substitute readRuby) [c] [c] :=
  turns_of_none fun rest ↦ by simp [readRuby, annotated?, h]

def readMarkers (text : List Char) : List Char :=
  markers.foldl (fun text marker ↦ replace marker.2 marker.1 text) text

theorem readMarkers_turns_char {c : Char} (h : c ≠ '[') : Turns readMarkers [c] [c] :=
  ((((replace_turns_copy h).comp (replace_turns_copy h)).comp (replace_turns_copy h)).comp
    (replace_turns_copy h)).comp (replace_turns_copy h)

def readBrackets (text : List Char) : List Char := readMarkers (substitute readRuby text)

theorem readBrackets_turns_char {c : Char} (h : c ≠ '[') : Turns readBrackets [c] [c] :=
  (readRuby_turns_char h).comp (readMarkers_turns_char h)

/-- The notation of a ruby span, with its base in brackets and its gloss in parentheses, is read as
that span in every text. -/
theorem readRuby_turns_ruby {base gloss : List Char} (hb : IsRun base) (hg : IsRun gloss) :
    Turns (substitute readRuby) (Token.ruby base gloss).written (Token.ruby base gloss).raw := by
  rw [Token.written, flatMap_charWritten hb.2, flatMap_charWritten hg.2]
  apply turns_of_some
  intro rest
  have hbase : runUntil? ['[', ']'] ']' (base ++ ']' :: '(' :: (gloss ++ ')' :: rest)) =
      some (base, '(' :: (gloss ++ ')' :: rest)) :=
    runUntil?_append hb.1 (by simp [hb.not_mem]) (hb.not_mem (by simp))
  have hgloss : runUntil? ['(', ')'] ')' (gloss ++ ')' :: rest) = some (gloss, rest) :=
    runUntil?_append hg.1 (by simp [hg.not_mem]) (hg.not_mem (by simp))
  have ha : annotated? ('[' :: (base ++ ']' :: '(' :: (gloss ++ ')' :: rest))) =
      some (base, gloss) := by
    rw [annotated?, if_pos rfl, hbase]
    dsimp only
    rw [if_pos rfl, hgloss]
    rfl
  simp [readRuby, ha, Token.raw]
  omega

/-- A token that is no marker is read in the same way in every text. -/
theorem readBrackets_turns {t : Token} (h : t.Plain) (hm : ¬t.IsMarker) :
    Turns readBrackets t.voiceRead t.raw := by
  cases t with
  | char c =>
    have hp : IsPlain c := h.resolve_right hm
    change Turns _ (charWritten c) [c]
    rw [charWritten_eq_self hp]
    exact readBrackets_turns_char fun hc ↦ hp (by simp [hc])
  | sign g => exact absurd trivial hm
  | voice body =>
    have hbody : '[' ∉ body := h.not_mem (by simp)
    exact .copy_of_not_mem (fun _ ↦ readBrackets_turns_char)
      (by simp [Token.voiceRead, Token.raw, hbody, bell, null])
  | ruby base gloss =>
    have hb : '[' ∉ base := h.1.not_mem (by simp)
    have hg : '[' ∉ gloss := h.2.not_mem (by simp)
    exact (readRuby_turns_ruby h.1 h.2).comp (.copy_of_not_mem (fun _ ↦ readMarkers_turns_char)
      (by simp [Token.raw, hb, hg, bell, null]))

/-! What a marker is read as depends on what comes after it. -/

/-- The rest of a text starts like the gloss of a ruby span. -/
def StartsGloss (text : List Char) : Prop :=
  ∃ run after, text = '(' :: (run ++ ')' :: after) ∧ run ≠ [] ∧ ∀ c ∈ run, ¬IsParen c

theorem runUntil?_paren_isSome {text : List Char} :
    (runUntil? ['(', ')'] ')' text).isSome ↔
      ∃ run after, text = run ++ ')' :: after ∧ run ≠ [] ∧ ∀ c ∈ run, ¬IsParen c := by
  rw [Option.isSome_iff_exists]
  constructor
  · intro h
    obtain ⟨⟨run, after⟩, h⟩ := h
    obtain ⟨rfl, hne, hx, -⟩ := runUntil?_eq_some_iff.1 h
    exact ⟨run, after, rfl, hne, fun c hc ↦ by simpa [IsParen] using hx c hc⟩
  · intro h
    obtain ⟨run, after, rfl, hne, hx⟩ := h
    rw [forall_not_isParen_iff] at hx
    exact ⟨(run, after), runUntil?_append hne (by simp [hx]) hx.2⟩

theorem annotated?_marker_isSome {l : Char} {rest : List Char} (h : l ≠ '[' ∧ l ≠ ']') :
    (annotated? ('[' :: l :: ']' :: rest)).isSome ↔ StartsGloss rest := by
  have hb : runUntil? ['[', ']'] ']' (l :: ']' :: rest) = some ([l], rest) :=
    runUntil?_eq_some_iff.2 ⟨rfl, by simp, by simp [h], by simp⟩
  rw [annotated?, if_pos rfl, hb]
  cases rest with
  | nil => simp [StartsGloss]
  | cons d after =>
    dsimp only
    split
    · subst d
      rw [Option.isSome_map, runUntil?_paren_isSome]
      simp [StartsGloss]
    · rename_i hd
      simp [StartsGloss, hd]

theorem readBrackets_marker {l : Char} {rest : List Char} (h : l ≠ '[' ∧ l ≠ ']')
    (hrest : ¬StartsGloss rest) :
    readBrackets ('[' :: l :: ']' :: rest) =
      readMarkers ('[' :: l :: ']' :: substitute readRuby rest) := by
  have hn : annotated? ('[' :: l :: ']' :: rest) = none := by
    rwa [← Option.not_isSome_iff_eq_none, annotated?_marker_isSome h]
  have hnr : readRuby ('[' :: l :: ']' :: rest) = none := by rw [readRuby, hn]; rfl
  have hcopy := (readRuby_turns_char h.1).append (readRuby_turns_char (c := ']') (by decide))
  rw [readBrackets, substitute_of_none hnr]
  exact congrArg (fun text ↦ readMarkers ('[' :: text)) (hcopy rest)

/-- A marker before a gloss is read as the base of a ruby span. -/
theorem readBrackets_glossed {l : Char} {rest : List Char} (h : l ≠ '[' ∧ l ≠ ']')
    (hrest : StartsGloss rest) :
    ∃ later, readBrackets ('[' :: l :: ']' :: rest) = bell :: '\x01' :: later := by
  obtain ⟨⟨base, gloss⟩, ha⟩ := Option.isSome_iff_exists.1 ((annotated?_marker_isSome h).2 hrest)
  have hr : readRuby ('[' :: l :: ']' :: rest) =
      some ⟨bell :: '\x01' :: base ++ ['\n'] ++ gloss ++ [null],
        base.length + gloss.length + 4⟩ := by
    rw [readRuby, ha]
    rfl
  have hcopy := (readMarkers_turns_char (c := bell) (by decide)).append
    (readMarkers_turns_char (c := '\x01') (by decide))
  rw [readBrackets, substitute_of_some hr]
  exact ⟨_, by simpa using hcopy _⟩

namespace Token

theorem voiceRead_ne_nil (t : Token) : t.voiceRead ≠ [] := by
  cases t with
  | char c =>
    change charWritten c ≠ []
    unfold charWritten
    split
    · simp
    · split <;> simp
  | sign g => simp [voiceRead, written]
  | voice body => simp [voiceRead, raw]
  | ruby base gloss => simp [voiceRead, written]

theorem IsBare.voiceRead {t : Token} (hb : t.IsBare) (h : t.Plain) :
    ∀ c ∈ t.voiceRead, ¬IsParen c := by
  cases t with
  | char c =>
    rcases h with hp | rfl | rfl
    · change ∀ d ∈ charWritten c, ¬IsParen d
      rw [charWritten_eq_self hp]
      exact fun d hd ↦ List.mem_singleton.1 hd ▸ hb
    · exact forall_not_isParen_iff.2 (by decide)
    · exact forall_not_isParen_iff.2 (by decide)
  | sign g => cases g <;> exact forall_not_isParen_iff.2 (by decide)
  | voice body =>
    have hopen : '(' ∉ body := IsRun.not_mem h (by simp)
    have hclose : ')' ∉ body := IsRun.not_mem h (by simp)
    rw [forall_not_isParen_iff]
    simp [Token.voiceRead, Token.raw, hopen, hclose, bell, null]
  | ruby base gloss => exact hb.elim

/-- The parentheses of a token that has any start with these characters. -/
theorem exists_paren_of_not_isBare {t : Token} (hb : ¬t.IsBare) (h : t.Plain) :
    t = .char ')' ∨ ∃ before after, t.voiceRead = before ++ '(' :: after ∧
      ∀ c ∈ before, ¬IsParen c := by
  cases t with
  | char c =>
    rcases Decidable.not_not.1 hb with rfl | rfl
    · exact .inr ⟨[], [], rfl, by simp⟩
    · exact .inl rfl
  | sign g => exact absurd trivial hb
  | voice body => exact absurd trivial hb
  | ruby base gloss =>
    have hopen : '(' ∉ base := h.1.not_mem (by simp)
    have hclose : ')' ∉ base := h.1.not_mem (by simp)
    refine .inr ⟨'[' :: base ++ [']'], gloss ++ [')'], ?_, ?_⟩
    · change (Token.ruby base gloss).written = _
      rw [Token.written, flatMap_charWritten h.1.2, flatMap_charWritten h.2.2]
      simp
    · rw [forall_not_isParen_iff]
      simp [hopen, hclose]

end Token

/-- Two readings of a text agree on where its first parenthesis stands. -/
theorem first_paren {a a' b b' : List Char} {c c' : Char} (ha : ∀ d ∈ a, ¬IsParen d)
    (ha' : ∀ d ∈ a', ¬IsParen d) (hc : IsParen c) (hc' : IsParen c')
    (h : a ++ c :: b = a' ++ c' :: b') : a = a' ∧ c = c' ∧ b = b' := by
  induction a generalizing a' with
  | nil =>
    cases a' with
    | nil => exact ⟨rfl, List.cons.inj h⟩
    | cons d later =>
      obtain ⟨rfl, -⟩ := List.cons.inj h
      exact absurd hc (ha' c (by simp))
  | cons d later ih =>
    cases a' with
    | nil =>
      obtain ⟨rfl, -⟩ := List.cons.inj h
      exact absurd hc' (ha d (by simp))
    | cons e later' =>
      obtain ⟨rfl, htail⟩ := List.cons.inj h
      obtain ⟨rfl, hrest⟩ := ih (fun d hd ↦ ha d (by simp [hd])) (fun d hd ↦ ha' d (by simp [hd]))
        htail
      exact ⟨rfl, hrest⟩

/-- A run without parentheses before a `)` is made of whole tokens. -/
theorem exists_gloss_of_voiceRead {ts : List Token} (h : ∀ t ∈ ts, t.Plain) {run after : List Char}
    (hr : ts.flatMap Token.voiceRead = run ++ ')' :: after) (hrun : ∀ c ∈ run, ¬IsParen c) :
    ∃ gloss later, ts = gloss ++ .char ')' :: later ∧ (∀ t ∈ gloss, t.IsBare) ∧
      run = gloss.flatMap Token.voiceRead := by
  induction ts generalizing run with
  | nil => simp at hr
  | cons t ts ih =>
    have ht : t.Plain := h t (by simp)
    rw [List.flatMap_cons] at hr
    by_cases hb : t.IsBare
    · -- the run cannot end inside a token whose notation has no parenthesis
      have hsplit : ∃ run', run = t.voiceRead ++ run' ∧
          ts.flatMap Token.voiceRead = run' ++ ')' :: after := by
        rcases List.append_eq_append_iff.1 hr with h1 | ⟨later, hrun', hrest⟩
        · exact h1
        cases later with
        | nil => exact ⟨[], by simpa using hrun'.symm, by simpa using hrest.symm⟩
        | cons d later =>
          obtain ⟨rfl, -⟩ := List.cons.inj hrest
          exact absurd (.inr rfl) (hb.voiceRead ht ')' (by simp [hrun']))
      obtain ⟨run', rfl, hrest⟩ := hsplit
      obtain ⟨gloss, later, rfl, hg, rfl⟩ := ih (fun u hu ↦ h u (by simp [hu])) hrest
        fun c hc ↦ hrun c (by simp [hc])
      refine ⟨t :: gloss, later, rfl, fun u hu ↦ ?_, rfl⟩
      rcases List.mem_cons.1 hu with rfl | hu
      · exact hb
      · exact hg u hu
    · rcases Token.exists_paren_of_not_isBare hb ht with rfl | ⟨before, rest, hv, hbefore⟩
      · have hclose : [] ++ ')' :: ts.flatMap Token.voiceRead = run ++ ')' :: after := hr
        obtain ⟨rfl, -⟩ := first_paren (by simp) hrun (.inr rfl) (.inr rfl) hclose
        exact ⟨[], ts, rfl, by simp, rfl⟩
      · rw [hv, List.append_assoc] at hr
        obtain ⟨-, hc, -⟩ := first_paren hbefore hrun (.inl rfl) (.inr rfl) hr
        simp at hc

/-- Only the character itself starts with a parenthesis. -/
theorem Token.eq_of_voiceRead_open {t : Token} (h : t.Plain) {after : List Char}
    (hv : t.voiceRead = '(' :: after) : t = .char '(' := by
  cases t with
  | char c =>
    rcases h with hp | rfl | rfl
    · have hc : charWritten c = '(' :: after := hv
      rw [charWritten_eq_self hp] at hc
      rw [(List.cons.inj hc).1]
    · revert hv
      simp [voiceRead, written, charWritten]
    · revert hv
      simp [voiceRead, written, charWritten]
  | sign g => simp [voiceRead, written] at hv
  | voice body => simp [voiceRead, raw, bell] at hv
  | ruby base gloss => simp [voiceRead, written] at hv

theorem startsGloss_iff_inParens {ts : List Token} (h : ∀ t ∈ ts, t.Plain) :
    StartsGloss (ts.flatMap Token.voiceRead) ↔ InParens ts := by
  constructor
  · intro h
    obtain ⟨run, after, hr, hne, hrun⟩ := h
    cases ts with
    | nil => simp at hr
    | cons t ts =>
      have hfirst : ∃ later, t.voiceRead = '(' :: later := by
        cases hv : t.voiceRead with
        | nil => exact absurd hv t.voiceRead_ne_nil
        | cons c later =>
          rw [List.flatMap_cons, hv] at hr
          exact ⟨later, by rw [(List.cons.inj hr).1]⟩
      obtain ⟨later, hv⟩ := hfirst
      obtain rfl := Token.eq_of_voiceRead_open (h t (by simp)) hv
      have hrest : ts.flatMap Token.voiceRead = run ++ ')' :: after := (List.cons.inj hr).2
      obtain ⟨gloss, later, rfl, hg, rfl⟩ :=
        exists_gloss_of_voiceRead (fun t ht ↦ h t (by simp [ht])) hrest hrun
      exact ⟨gloss, later, rfl, fun hn ↦ hne (by rw [hn]; rfl), hg⟩
  · intro h
    obtain ⟨gloss, after, rfl, hne, hg⟩ := h
    refine ⟨gloss.flatMap Token.voiceRead, after.flatMap Token.voiceRead, ?_, ?_, ?_⟩
    · simp [Token.voiceRead, Token.written, charWritten]
    · cases gloss with
      | nil => exact absurd rfl hne
      | cons t later => simp [t.voiceRead_ne_nil]
    · intro c hc
      obtain ⟨t, ht, hct⟩ := List.mem_flatMap.1 hc
      exact (hg t ht).voiceRead (h t (by simp [ht])) c hct

/-- A marker is a letter in square brackets, and does not start like a ruby span. -/
theorem Token.IsMarker.exists_letter {t : Token} (h : t.IsMarker) :
    ∃ l, t.voiceRead = ['[', l, ']'] ∧ (l ≠ '[' ∧ l ≠ ']') ∧
      Turns readMarkers ['[', l, ']'] t.raw ∧
      ∀ text later, t.raw ++ text ≠ bell :: '\x01' :: later := by
  cases t with
  | char c =>
    rcases h with rfl | rfl
    · exact ⟨'n', rfl, by decide, fun _ ↦ rfl, by simp [raw, bell]⟩
    · exact ⟨'r', rfl, by decide, fun _ ↦ rfl, by simp [raw, bell]⟩
  | sign g =>
    refine ⟨g.letter, rfl, ?_⟩
    cases g <;> exact ⟨by decide, fun _ ↦ rfl, by simp [raw, Sign.code]⟩
  | voice body => exact h.elim
  | ruby base gloss => exact h.elim

theorem readBrackets_cons_iff {t : Token} {ts : List Token} (h : ∀ u ∈ t :: ts, u.Plain) :
    readBrackets ((t :: ts).flatMap Token.voiceRead) = (t :: ts).flatMap Token.raw ↔
      ¬(t.IsMarker ∧ InParens ts) ∧
        readBrackets (ts.flatMap Token.voiceRead) = ts.flatMap Token.raw := by
  have htail : StartsGloss (ts.flatMap Token.voiceRead) ↔ InParens ts :=
    startsGloss_iff_inParens fun u hu ↦ h u (by simp [hu])
  rw [List.flatMap_cons, List.flatMap_cons]
  by_cases hm : t.IsMarker
  · obtain ⟨l, hv, hl, hread, hne⟩ := hm.exists_letter
    rw [hv]
    by_cases hp : InParens ts
    · obtain ⟨later, hlater⟩ := readBrackets_glossed hl (htail.2 hp)
      refine iff_of_false (fun he ↦ ?_) (fun hn ↦ hn.1 ⟨hm, hp⟩)
      exact hne _ later (he.symm.trans hlater)
    · have hstep : readBrackets (['[', l, ']'] ++ ts.flatMap Token.voiceRead) =
          t.raw ++ readBrackets (ts.flatMap Token.voiceRead) :=
        (readBrackets_marker hl fun hs ↦ hp (htail.1 hs)).trans (hread _)
      rw [hstep, List.append_cancel_left_eq]
      simp [hp]
  · rw [readBrackets_turns (h t (by simp)) hm, List.append_cancel_left_eq]
    simp [hm]

theorem readBrackets_iff {ts : List Token} (h : ∀ t ∈ ts, t.Plain) :
    readBrackets (ts.flatMap Token.voiceRead) = ts.flatMap Token.raw ↔ ¬Glossed ts := by
  induction ts with
  | nil => exact iff_of_true rfl not_glossed_nil
  | cons t ts ih =>
    rw [readBrackets_cons_iff h, ih fun u hu ↦ h u (by simp [hu]), glossed_cons_iff, not_or]

theorem unescape_escape_iff {ts : List Token} (h : ∀ t ∈ ts, t.Plain) :
    Message.unescape (Message.escape (ts.flatMap Token.raw)) = ts.flatMap Token.raw ↔
      ¬Glossed ts := by
  have hvoice : substitute readVoice (ts.flatMap Token.written) = ts.flatMap Token.voiceRead :=
    (Turns.flatMap fun t ht ↦ readVoice_turns (h t ht)).whole rfl
  rw [escape_tokens fun t ht ↦ (h t ht).sound, ← readBrackets_iff h, ← hvoice]
  rfl

/-- A message text of plain tokens comes back from its notation just when no marker stands
before a text in parentheses. -/
theorem unescapeMessage_escapeMessage_iff {ts : List Token} (h : ∀ t ∈ ts, t.Plain) :
    unescapeMessage (escapeMessage (String.ofList (ts.flatMap Token.raw))) =
        String.ofList (ts.flatMap Token.raw) ↔ ¬Glossed ts := by
  rw [unescapeMessage, escapeMessage, String.toList_ofList, String.toList_ofList,
    ← unescape_escape_iff h]
  exact ⟨fun he ↦ String.ofList_injective he, congrArg String.ofList⟩

/-- Every kind of token, and a text in parentheses that no marker stands before. -/
theorem unescapeMessage_escapeMessage_sample :
    let ts : List Token := [.sign .c, .char '\n', .voice ['v'], .char '(', .char 'x', .char ')',
      .ruby ['b'] ['g']]
    (∀ t ∈ ts, t.Plain) ∧ ¬Glossed ts ∧
      unescapeMessage (escapeMessage (String.ofList (ts.flatMap Token.raw))) =
        String.ofList (ts.flatMap Token.raw) := by
  intro ts
  have hp : ∀ t ∈ ts, t.Plain := by decide
  have hg : ¬Glossed ts := by
    simp [ts, glossed_cons_iff, not_glossed_nil, Token.IsMarker, InParens]
  exact ⟨hp, hg, (unescapeMessage_escapeMessage_iff hp).2 hg⟩

/-- A line feed before a text in parentheses becomes the base of a ruby span. -/
theorem unescapeMessage_escapeMessage_lineFeed_paren :
    ¬∀ ts : List Token, (∀ t ∈ ts, t.Plain) →
      unescapeMessage (escapeMessage (String.ofList (ts.flatMap Token.raw))) =
        String.ofList (ts.flatMap Token.raw) := by
  intro h
  have hback := h [.char '\n', .char '(', .char 'x', .char ')'] (by decide)
  rw [unescapeMessage, escapeMessage, String.toList_ofList, String.toList_ofList] at hback
  have hlist := String.ofList_injective hback
  revert hlist
  decide

end NovelScript.Markup
