import NovelScript.Proofs.Markup.Turning

/-!
The parts of a message text, and writing them in notation. `escape_tokens` says that a text is
written part by part: no span runs into what comes before or after it.
-/

namespace NovelScript.Markup

open Text

/-- The control sequences of U+0007 and one more character. -/
inductive Sign where
  | c
  | z
  | s
  deriving DecidableEq, Repr

namespace Sign

def code : Sign → Char
  | c => '\x04'
  | z => '\x06'
  | s => '\x09'

def letter : Sign → Char
  | c => 'c'
  | z => 'z'
  | s => 's'

end Sign

inductive Token where
  | char (c : Char)
  | sign (g : Sign)
  | voice (body : List Char)
  | ruby (base gloss : List Char)
  deriving DecidableEq, Repr

/-- Line feeds and carriage returns have a notation, also inside spans. -/
def charWritten (c : Char) : List Char :=
  if c = '\n' then ['[', 'n', ']'] else if c = '\r' then ['[', 'r', ']'] else [c]

namespace Token

def raw : Token → List Char
  | char c => [c]
  | sign g => [bell, g.code]
  | voice body => bell :: '\x08' :: body ++ [null]
  | ruby base gloss => bell :: '\x01' :: base ++ '\n' :: gloss ++ [null]

def written : Token → List Char
  | char c => charWritten c
  | sign g => ['[', g.letter, ']']
  | voice body => '{' :: body.flatMap charWritten ++ ['}']
  | ruby base gloss =>
    '[' :: base.flatMap charWritten ++ [']', '('] ++ gloss.flatMap charWritten ++ [')']

/-- Spans are not empty and hold nothing that could end or start one. -/
def Sound : Token → Prop
  | char c => c ≠ null ∧ c ≠ bell
  | sign _ => True
  | voice body => body ≠ [] ∧ ∀ c ∈ body, c ≠ null ∧ c ≠ bell ∧ c ≠ '\x08'
  | ruby base gloss =>
    (base ≠ [] ∧ ∀ c ∈ base, c ≠ null ∧ c ≠ bell ∧ c ≠ '\x01' ∧ c ≠ '\n') ∧
      gloss ≠ [] ∧ ∀ c ∈ gloss, c ≠ null ∧ c ≠ bell ∧ c ≠ '\n'

-- runs are checked by their characters, never by a search through all of `Char`
instance : DecidablePred Sound
  | char _ => inferInstanceAs (Decidable (_ ∧ _))
  | sign _ => .isTrue trivial
  | voice body => @instDecidableAnd (body ≠ []) _ _ (List.decidableBAll _ body)
  | ruby base gloss =>
    @instDecidableAnd _ _ (@instDecidableAnd (base ≠ []) _ _ (List.decidableBAll _ base))
      (@instDecidableAnd (gloss ≠ []) _ _ (List.decidableBAll _ gloss))

/-- A token after the voice spans of a text are written. -/
def voiceWritten : Token → List Char
  | voice body => '{' :: body ++ ['}']
  | t => t.raw

/-- A token after all spans of a text are written. -/
def spansWritten : Token → List Char
  | ruby base gloss => '[' :: base ++ [']', '('] ++ gloss ++ [')']
  | t => t.voiceWritten

end Token

theorem takeWhile_dropWhile_eq_iff {p : Char → Bool} {text front after : List Char} {d : Char}
    (hd : p d = false) :
    text.takeWhile p = front ∧ text.dropWhile p = d :: after ↔
      text = front ++ d :: after ∧ ∀ c ∈ front, p c = true := by
  constructor
  · intro h
    obtain ⟨rfl, hdrop⟩ := h
    rw [← hdrop]
    exact ⟨List.takeWhile_append_dropWhile.symm, List.all_eq_true.1 List.all_takeWhile⟩
  · intro h
    obtain ⟨rfl, hp⟩ := h
    rw [List.takeWhile_append_of_pos hp, List.dropWhile_append_of_pos hp,
      List.takeWhile_cons_of_neg (by simp [hd]), List.dropWhile_cons_of_neg (by simp [hd]),
      List.append_nil]
    exact ⟨rfl, rfl⟩

theorem runUntil?_cons_eq_some_iff {excluded rest run after : List Char} {c close : Char}
    (hc : c ∉ excluded) :
    runUntil? excluded close (c :: rest) = some (run, after) ↔
      ∃ later, run = c :: later ∧ rest = later ++ close :: after ∧
        ∀ d ∈ later, d ≠ close ∧ d ∉ excluded := by
  rw [runUntil?, if_neg hc]
  dsimp only
  generalize hp : (fun d ↦ decide (d ≠ close) && !excluded.contains d) = inRun
  have hin : ∀ d, inRun d = true ↔ d ≠ close ∧ d ∉ excluded := by
    intro d
    simp [← hp]
  have hclose : inRun close = false := by simp [← hp]
  simp only [← hin]
  constructor
  · intro h
    split at h
    · rename_i d after' hd
      split at h
      · cases h
        subst d
        exact ⟨_, rfl, (takeWhile_dropWhile_eq_iff hclose).1 ⟨rfl, hd⟩⟩
      · cases h
    · cases h
  · rintro ⟨later, rfl, hlater⟩
    obtain ⟨htake, hdrop⟩ := (takeWhile_dropWhile_eq_iff hclose).2 hlater
    rw [htake, hdrop]
    exact if_pos rfl

/-- A run has at least one character, none excluded, and only its first can be `close`. -/
theorem runUntil?_eq_some_iff {excluded text run after : List Char} {close : Char} :
    runUntil? excluded close text = some (run, after) ↔
      text = run ++ close :: after ∧ run ≠ [] ∧ (∀ c ∈ run, c ∉ excluded) ∧
        ∀ c ∈ run.tail, c ≠ close := by
  cases text with
  | nil => simp [runUntil?]
  | cons c rest =>
    constructor
    · intro h
      by_cases hc : c ∈ excluded
      · rw [runUntil?, if_pos hc] at h
        cases h
      · obtain ⟨later, rfl, rfl, hlater⟩ := (runUntil?_cons_eq_some_iff hc).1 h
        refine ⟨rfl, by simp, ?_, fun d hd ↦ (hlater d hd).1⟩
        exact List.forall_mem_cons.2 ⟨hc, fun d hd ↦ (hlater d hd).2⟩
    · rintro ⟨he, hne, hx, hl⟩
      cases run with
      | nil => exact absurd rfl hne
      | cons d later =>
        obtain ⟨rfl, hrest⟩ := List.cons.inj he
        obtain ⟨hc, hlater⟩ := List.forall_mem_cons.1 hx
        have hin : ∀ d ∈ later, d ≠ close ∧ d ∉ excluded := fun d hd ↦ ⟨hl d hd, hlater d hd⟩
        exact (runUntil?_cons_eq_some_iff hc).2 ⟨later, rfl, hrest, hin⟩

theorem runUntil?_append {excluded body rest : List Char} {close : Char} (hne : body ≠ [])
    (hx : ∀ d ∈ excluded, d ∉ body) (hclose : close ∉ body) :
    runUntil? excluded close (body ++ close :: rest) = some (body, rest) := by
  refine runUntil?_eq_some_iff.2 ⟨rfl, hne, fun c hc he ↦ hx c he hc, fun c hc he ↦ ?_⟩
  exact hclose (he ▸ List.mem_of_mem_tail hc)

theorem rubyFrom_append {start base gloss rest : List Char} (hne : start ++ base ≠ [])
    (hb : ∀ c ∈ base, c ≠ bell ∧ c ≠ '\x01' ∧ c ≠ '\n')
    (hg : gloss ≠ [] ∧ '\n' ∉ gloss ∧ null ∉ gloss) :
    rubyFrom start (base ++ '\n' :: (gloss ++ null :: rest)) =
      some (start.reverse ++ base, gloss) := by
  induction base generalizing start with
  | nil =>
    have hs : start ≠ [] := by simpa using hne
    have hr : runUntil? ['\n'] null (gloss ++ null :: rest) = some (gloss, rest) :=
      runUntil?_append hg.1 (List.forall_mem_singleton.2 hg.2.1) hg.2.2
    rw [List.nil_append, rubyFrom, if_pos ⟨rfl, hs⟩, hr, List.append_nil]
  | cons c base ih =>
    obtain ⟨h7, h1, hn⟩ := hb c (by simp)
    rw [List.cons_append, rubyFrom, if_neg (by simp [hn])]
    simp only [h7, h1, or_self, if_false]
    rw [ih (by simp) fun d hd ↦ hb d (by simp [hd])]
    simp

theorem writeVoice_turns_char {c : Char} (h : c ≠ bell) : Turns (substitute writeVoice) [c] [c] :=
  turns_of_none fun rest ↦ by cases rest <;> simp [writeVoice, voice?, h]

theorem writeRuby_turns_char {c : Char} (h : c ≠ bell) : Turns (substitute writeRuby) [c] [c] :=
  turns_of_none fun rest ↦ by cases rest <;> simp [writeRuby, ruby?, h]

theorem writeVoice_turns_bell {c : Char} (h7 : c ≠ bell) (h8 : c ≠ '\x08') :
    Turns (substitute writeVoice) [bell, c] [bell, c] := by
  intro rest
  have hn : writeVoice (bell :: c :: rest) = none := by simp [writeVoice, voice?, h8]
  rw [List.cons_append, List.singleton_append, substitute_of_none hn]
  exact congrArg (bell :: ·) (writeVoice_turns_char h7 rest)

theorem writeRuby_turns_bell {c : Char} (h7 : c ≠ bell) (h1 : c ≠ '\x01') :
    Turns (substitute writeRuby) [bell, c] [bell, c] := by
  intro rest
  have hn : writeRuby (bell :: c :: rest) = none := by simp [writeRuby, ruby?, h1]
  rw [List.cons_append, List.singleton_append, substitute_of_none hn]
  exact congrArg (bell :: ·) (writeRuby_turns_char h7 rest)

theorem writeVoice_turns {t : Token} (h : t.Sound) :
    Turns (substitute writeVoice) t.raw t.voiceWritten := by
  cases t with
  | char c => exact writeVoice_turns_char h.2
  | sign g => cases g <;> exact writeVoice_turns_bell (by decide) (by decide)
  | voice body =>
    have h0 : null ∉ body := fun hm ↦ (h.2 null hm).1 rfl
    have h7 : bell ∉ body := fun hm ↦ (h.2 bell hm).2.1 rfl
    have h8 : '\x08' ∉ body := fun hm ↦ (h.2 '\x08' hm).2.2 rfl
    apply turns_of_some
    intro rest
    have hr : runUntil? [bell, '\x08'] null (body ++ null :: rest) = some (body, rest) :=
      runUntil?_append h.1 (by simp [h7, h8]) h0
    have hv : voice? (bell :: '\x08' :: (body ++ null :: rest)) = some body := by
      rw [voice?, if_pos ⟨rfl, rfl⟩, hr]
      rfl
    simp [writeVoice, hv, Token.voiceWritten]
  | ruby base gloss =>
    have hb : bell ∉ base := fun hm ↦ (h.1.2 bell hm).2.1 rfl
    have hg : bell ∉ gloss := fun hm ↦ (h.2.2 bell hm).2.1 rfl
    have hraw : (Token.ruby base gloss).raw =
        [bell, '\x01'] ++ (base ++ '\n' :: (gloss ++ [null])) := by
      simp [Token.raw]
    have hrest : bell ∉ base ++ '\n' :: (gloss ++ [null]) := by
      simp only [List.mem_append, List.mem_cons, List.not_mem_nil, hb, hg, or_false, false_or]
      decide
    change Turns _ (Token.ruby base gloss).raw (Token.ruby base gloss).raw
    rw [hraw]
    exact (writeVoice_turns_bell (by decide) (by decide)).append
      (.copy_of_not_mem (fun _ ↦ writeVoice_turns_char) hrest)

theorem writeRuby_turns {t : Token} (h : t.Sound) :
    Turns (substitute writeRuby) t.voiceWritten t.spansWritten := by
  cases t with
  | char c => exact writeRuby_turns_char h.2
  | sign g => cases g <;> exact writeRuby_turns_bell (by decide) (by decide)
  | voice body =>
    have hb : bell ∉ body := fun hm ↦ (h.2 bell hm).2.1 rfl
    have hwritten : bell ∉ '{' :: body ++ ['}'] := by
      simp only [List.mem_append, List.mem_cons, List.not_mem_nil, hb, or_false]
      decide
    exact .copy_of_not_mem (fun _ ↦ writeRuby_turns_char) hwritten
  | ruby base gloss =>
    obtain ⟨⟨hne, hb⟩, hg⟩ := h
    have hn : '\n' ∉ gloss := fun hm ↦ (hg.2 '\n' hm).2.2 rfl
    have h0 : null ∉ gloss := fun hm ↦ (hg.2 null hm).1 rfl
    apply turns_of_some
    intro rest
    have hr : rubyFrom [] (base ++ '\n' :: (gloss ++ null :: rest)) = some (base, gloss) :=
      rubyFrom_append hne (fun c hc ↦ (hb c hc).2) ⟨hg.1, hn, h0⟩
    have hv : ruby? (bell :: '\x01' :: (base ++ '\n' :: (gloss ++ null :: rest))) =
        some (base, gloss) := by
      rw [ruby?, if_pos ⟨rfl, rfl⟩, hr]
    simp [writeRuby, hv, Token.spansWritten]
    omega

def writeMarkers (text : List Char) : List Char :=
  markers.foldl (fun text marker ↦ replace marker.1 marker.2 text) text

theorem writeMarkers_turns_sign (g : Sign) :
    Turns writeMarkers [bell, g.code] ['[', g.letter, ']'] := by
  cases g <;> exact fun _ ↦ rfl

theorem writeMarkers_turns_char {c : Char} (h : c ≠ bell) :
    Turns writeMarkers [c] (charWritten c) := by
  unfold charWritten
  split
  · subst c
    exact fun _ ↦ rfl
  · split
    · subst c
      exact fun _ ↦ rfl
    · rename_i hn hr
      exact ((((replace_turns_copy h).comp (replace_turns_copy h)).comp (replace_turns_copy h)).comp
        (replace_turns_copy hn)).comp (replace_turns_copy hr)

theorem writeMarkers_turns_bracket {c : Char} (h : c ∈ ['{', '}', '[', ']', '(', ')']) :
    Turns writeMarkers [c] [c] := by
  simp only [List.mem_cons, List.not_mem_nil, or_false] at h
  rcases h with rfl | rfl | rfl | rfl | rfl | rfl <;> exact writeMarkers_turns_char (by decide)

theorem writeMarkers_turns {t : Token} (h : t.Sound) :
    Turns writeMarkers t.spansWritten t.written := by
  have hrun : ∀ run : List Char, (∀ c ∈ run, c ≠ bell) →
      Turns writeMarkers run (run.flatMap charWritten) :=
    fun run hr ↦ .ofChars fun c hc ↦ writeMarkers_turns_char (hr c hc)
  have hself : ∀ c ∈ ['{', '}', '[', ']', '(', ')'], Turns writeMarkers [c] [c] :=
    fun _ ↦ writeMarkers_turns_bracket
  cases t with
  | char c => exact writeMarkers_turns_char h.2
  | sign g => exact writeMarkers_turns_sign g
  | voice body =>
    have hb := hrun body fun c hc ↦ (h.2 c hc).2.1
    exact ((hself '{' (by simp)).append hb).append (hself '}' (by simp))
  | ruby base gloss =>
    have hb := hrun base fun c hc ↦ (h.1.2 c hc).2.1
    have hg := hrun gloss fun c hc ↦ (h.2.2 c hc).2.1
    have hm := (hself ']' (by simp)).append (hself '(' (by simp))
    exact ((((hself '[' (by simp)).append hb).append hm).append hg).append (hself ')' (by simp))

/-- A sound token is written in the same way in every text. -/
theorem escape_turns {t : Token} (h : t.Sound) : Turns Message.escape t.raw t.written :=
  ((writeVoice_turns h).comp (writeRuby_turns h)).comp (writeMarkers_turns h)

theorem escape_tokens {ts : List Token} (h : ∀ t ∈ ts, t.Sound) :
    Message.escape (ts.flatMap Token.raw) = ts.flatMap Token.written :=
  (Turns.flatMap fun t ht ↦ escape_turns (h t ht)).whole rfl

/-- A text of sound tokens is written token by token, and no token runs into a text behind it. -/
theorem escapeMessage_tokens {ts : List Token} (h : ∀ t ∈ ts, t.Sound) :
    escapeMessage (String.ofList (ts.flatMap Token.raw)) =
        String.ofList (ts.flatMap Token.written) ∧
      ∀ rest, escapeMessage (String.ofList (ts.flatMap Token.raw) ++ rest) =
        escapeMessage (String.ofList (ts.flatMap Token.raw)) ++ escapeMessage rest := by
  have hall : Turns Message.escape (ts.flatMap Token.raw) (ts.flatMap Token.written) :=
    .flatMap fun t ht ↦ escape_turns (h t ht)
  have hwhole : escapeMessage (String.ofList (ts.flatMap Token.raw)) =
      String.ofList (ts.flatMap Token.written) := by
    rw [escapeMessage, String.toList_ofList, escape_tokens h]
  refine ⟨hwhole, fun rest ↦ ?_⟩
  rw [hwhole, escapeMessage, escapeMessage, String.toList_append, String.toList_ofList, hall,
    String.ofList_append]

/-- Spans side by side, with line ends and unmatched brackets in them and around them. -/
theorem escapeMessage_tokens_adjacent :
    let ts : List Token := [.char '[', .voice ['a', '\n'], .voice ['}'],
      .ruby ['b', '\r'] ['\x08', ')'], .ruby ['x'] ['y'], .sign .s, .char '\t', .char '\n']
    (∀ t ∈ ts, t.Sound) ∧
      escapeMessage (String.ofList (ts.flatMap Token.raw)) =
        "[\x7ba[n]\x7d\x7b\x7d\x7d[b[r]](\x08))[x](y)[s]\t[n]" ∧
      escapeMessage (String.ofList (ts.flatMap Token.raw) ++ "\x07\x08v\x00") =
        "[\x7ba[n]\x7d\x7b\x7d\x7d[b[r]](\x08))[x](y)[s]\t[n]\x7bv\x7d" := by
  intro ts
  have hs : ∀ t ∈ ts, t.Sound := by decide
  obtain ⟨hwhole, hrest⟩ := escapeMessage_tokens hs
  have hwritten : String.ofList (ts.flatMap Token.written) =
      "[\x7ba[n]\x7d\x7b\x7d\x7d[b[r]](\x08))[x](y)[s]\t[n]" := by
    decide
  refine ⟨hs, hwhole.trans hwritten, ?_⟩
  rw [hrest, hwhole, hwritten]
  decide

end NovelScript.Markup
