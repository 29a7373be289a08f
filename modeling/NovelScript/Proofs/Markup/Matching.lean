import NovelScript.Proofs.Markup.Tokens

/-!
Looking for spans. Of the spans that start at a place, the one that is found has the shortest base,
and with that base the shortest gloss (`find?_eq_some_iff`).
-/

namespace NovelScript.Markup

open Text

/-- The spans of message texts, and those of their notation. -/
inductive Pattern where
  | voice
  | ruby
  | braced
  | annotated
  deriving DecidableEq, Repr

/-- What a span holds. Voice spans have no gloss. -/
structure Span where
  base : List Char
  gloss : List Char
  deriving DecidableEq, Repr

def Avoids (excluded run : List Char) : Prop := run ≠ [] ∧ ∀ c ∈ run, c ∉ excluded

namespace Pattern

def opening : Pattern → List Char
  | voice => [bell, '\x08']
  | ruby => [bell, '\x01']
  | braced => ['{']
  | annotated => ['[']

def middle : Pattern → List Char
  | voice => []
  | ruby => ['\n']
  | braced => []
  | annotated => [']', '(']

def closing : Pattern → Char
  | voice => null
  | ruby => null
  | braced => '}'
  | annotated => ')'

/-- The pattern that a span is rewritten to. -/
def turned : Pattern → Pattern
  | voice => braced
  | ruby => annotated
  | braced => voice
  | annotated => ruby

def text (p : Pattern) (s : Span) : List Char :=
  p.opening ++ (s.base ++ (p.middle ++ (s.gloss ++ [p.closing])))

def Allows : Pattern → Span → Prop
  | voice, s => Avoids [bell, '\x08'] s.base ∧ s.gloss = []
  | ruby, s => Avoids [bell, '\x01'] s.base ∧ Avoids ['\n'] s.gloss
  | braced, s => Avoids ['{', '}'] s.base ∧ s.gloss = []
  | annotated, s => Avoids ['[', ']'] s.base ∧ Avoids ['(', ')'] s.gloss

def Starts (p : Pattern) (s : Span) (ahead : List Char) : Prop :=
  p.Allows s ∧ p.text s <+: ahead

/-- No other span that starts here has a shorter base, or the same base and a shorter gloss. -/
def Shortest (p : Pattern) (s : Span) (ahead : List Char) : Prop :=
  p.Starts s ahead ∧ ∀ other, p.Starts other ahead →
    s.base.length ≤ other.base.length ∧ (other.base = s.base → s.gloss.length ≤ other.gloss.length)

def find? : Pattern → List Char → Option Span
  | voice, ahead => (voice? ahead).map fun body ↦ ⟨body, []⟩
  | ruby, ahead => (ruby? ahead).map fun (base, gloss) ↦ ⟨base, gloss⟩
  | braced, ahead => (braced? ahead).map fun body ↦ ⟨body, []⟩
  | annotated, ahead => (annotated? ahead).map fun (base, gloss) ↦ ⟨base, gloss⟩

def rule : Pattern → Rule
  | voice => writeVoice
  | ruby => writeRuby
  | braced => readVoice
  | annotated => readRuby

end Pattern

/-- A run outside `excluded` before a `close` is found, or a shorter one. -/
theorem exists_runUntil? {excluded run : List Char} (h : Avoids excluded run) (close : Char)
    (after : List Char) :
    ∃ found rest, runUntil? excluded close (run ++ close :: after) = some (found, rest) ∧
      found.length ≤ run.length := by
  obtain ⟨hne, hx⟩ := h
  cases run with
  | nil => exact absurd rfl hne
  | cons c later =>
    by_cases hclose : close ∈ later
    · -- the first `close` behind the first character ends the run
      obtain ⟨front, back, rfl, hfront⟩ := List.eq_append_cons_of_mem hclose
      refine ⟨c :: front, back ++ close :: after,
        runUntil?_eq_some_iff.2 ⟨by simp, by simp, ?_, ?_⟩, by simp⟩
      · intro d hd
        apply hx
        rcases List.mem_cons.1 hd with rfl | hd
        · exact List.mem_cons_self
        · exact List.mem_cons_of_mem _ (List.mem_append_left _ hd)
      · intro d hd he
        exact hfront (he ▸ hd)
    · refine ⟨c :: later, after, runUntil?_eq_some_iff.2 ⟨rfl, hne, hx, ?_⟩, Nat.le_refl _⟩
      intro d hd he
      exact hclose (he ▸ hd)

theorem rubyFrom_eq_some {start text base gloss : List Char}
    (h : rubyFrom start text = some (base, gloss)) :
    ∃ more after, base = start.reverse ++ more ∧ base ≠ [] ∧ (∀ c ∈ more, c ∉ [bell, '\x01']) ∧
      Avoids ['\n'] gloss ∧ text = more ++ '\n' :: (gloss ++ null :: after) := by
  induction text generalizing start with
  | nil => cases h
  | cons c rest ih =>
    rw [rubyFrom] at h
    split at h
    · rename_i hgloss
      cases h
      split at hgloss
      · rename_i hc
        obtain ⟨rfl, hstart⟩ := hc
        obtain ⟨rfl, hne, hx, -⟩ := runUntil?_eq_some_iff.1 hgloss
        exact ⟨[], _, by simp, by simpa using hstart, List.forall_mem_nil _, ⟨hne, hx⟩, rfl⟩
      · cases hgloss
    · split at h
      · cases h
      · rename_i hc
        obtain ⟨more, after, hbase, hne, hmore, hgloss, rfl⟩ := ih h
        refine ⟨c :: more, after, by simpa using hbase, hne, ?_, hgloss, rfl⟩
        exact List.forall_mem_cons.2 ⟨by simpa using hc, hmore⟩

/-- The base before a gloss is found, or a shorter one, or the same one with a shorter gloss. -/
theorem exists_rubyFrom {more gloss : List Char} (hmore : ∀ c ∈ more, c ∉ [bell, '\x01'])
    (hgloss : Avoids ['\n'] gloss) (start after : List Char) (hne : start ≠ [] ∨ more ≠ []) :
    ∃ base note, rubyFrom start (more ++ '\n' :: (gloss ++ null :: after)) = some (base, note) ∧
      base.length ≤ start.length + more.length ∧
      (base.length = start.length + more.length → note.length ≤ gloss.length) := by
  induction more generalizing start with
  | nil =>
    obtain ⟨found, rest, hfound, hle⟩ := exists_runUntil? hgloss null after
    have hstart : start ≠ [] := by simpa using hne
    refine ⟨start.reverse, found, ?_, by simp, fun _ ↦ hle⟩
    rw [List.nil_append, rubyFrom, if_pos ⟨rfl, hstart⟩, hfound]
  | cons c more ih =>
    obtain ⟨hc, hmore⟩ := List.forall_mem_cons.1 hmore
    obtain ⟨base, note, hfound, hbase, hnote⟩ := ih hmore (c :: start) (.inl (by simp))
    have hlen : (c :: start).length + more.length = start.length + (c :: more).length := by
      simp only [List.length_cons]
      omega
    rw [hlen] at hbase hnote
    rw [List.cons_append, rubyFrom]
    split
    · rename_i short _ _
      have hlt : start.reverse.length < start.length + (c :: more).length := by simp
      exact ⟨start.reverse, short, rfl, Nat.le_of_lt hlt, fun he ↦ absurd he (Nat.ne_of_lt hlt)⟩
    · rw [if_neg (by simpa using hc), hfound]
      exact ⟨base, note, rfl, hbase, hnote⟩

theorem voice?_eq_some_iff {ahead body : List Char} :
    voice? ahead = some body ↔ ∃ rest after, ahead = bell :: '\x08' :: rest ∧
      runUntil? [bell, '\x08'] null rest = some (body, after) := by
  constructor
  · intro h
    unfold voice? at h
    split at h
    · split at h
      · rename_i rest hopening
        obtain ⟨rfl, rfl⟩ := hopening
        obtain ⟨⟨_, after⟩, hrun, rfl⟩ := Option.map_eq_some_iff.1 h
        exact ⟨rest, after, rfl, hrun⟩
      · cases h
    · cases h
  · rintro ⟨rest, after, rfl, hrun⟩
    rw [voice?, if_pos ⟨rfl, rfl⟩, hrun]
    rfl

theorem ruby?_eq_some_iff {ahead : List Char} {found : List Char × List Char} :
    ruby? ahead = some found ↔
      ∃ rest, ahead = bell :: '\x01' :: rest ∧ rubyFrom [] rest = some found := by
  constructor
  · intro h
    unfold ruby? at h
    split at h
    · split at h
      · rename_i rest hopening
        obtain ⟨rfl, rfl⟩ := hopening
        exact ⟨rest, rfl, h⟩
      · cases h
    · cases h
  · rintro ⟨rest, rfl, hfound⟩
    rwa [ruby?, if_pos ⟨rfl, rfl⟩]

theorem braced?_eq_some_iff {ahead body : List Char} :
    braced? ahead = some body ↔ ∃ rest after, ahead = '{' :: rest ∧
      runUntil? ['{', '}'] '}' rest = some (body, after) := by
  constructor
  · intro h
    unfold braced? at h
    split at h
    · split at h
      · rename_i rest hopening
        obtain ⟨⟨_, after⟩, hrun, rfl⟩ := Option.map_eq_some_iff.1 h
        exact ⟨rest, after, congrArg (· :: rest) hopening, hrun⟩
      · cases h
    · cases h
  · rintro ⟨rest, after, rfl, hrun⟩
    rw [braced?, if_pos rfl, hrun]
    rfl

theorem annotated?_eq_some_iff {ahead base gloss : List Char} :
    annotated? ahead = some (base, gloss) ↔ ∃ rest after end_, ahead = '[' :: rest ∧
      runUntil? ['[', ']'] ']' rest = some (base, '(' :: after) ∧
      runUntil? ['(', ')'] ')' after = some (gloss, end_) := by
  constructor
  · intro h
    unfold annotated? at h
    split at h
    · split at h
      · rename_i rest hopening
        split at h
        · rename_i d after hbase
          split at h
          · rename_i hparen
            obtain ⟨⟨_, behind⟩, hgloss, he⟩ := Option.map_eq_some_iff.1 h
            cases he
            exact ⟨rest, after, behind, congrArg (· :: rest) hopening, hparen ▸ hbase, hgloss⟩
          · cases h
        · cases h
      · cases h
    · cases h
  · rintro ⟨rest, after, behind, rfl, hbase, hgloss⟩
    rw [annotated?, if_pos rfl, hbase]
    dsimp only
    rw [if_pos rfl, hgloss]
    rfl

namespace Pattern

variable {p : Pattern} {s other : Span} {ahead : List Char}

theorem length_text (p : Pattern) (s : Span) :
    (p.text s).length =
      p.opening.length + s.base.length + p.middle.length + s.gloss.length + 1 := by
  simp only [text, List.length_append, List.length_singleton]
  omega

theorem text_append (p : Pattern) (s : Span) (after : List Char) :
    p.text s ++ after =
      p.opening ++ (s.base ++ (p.middle ++ (s.gloss ++ p.closing :: after))) := by
  simp only [text, List.append_assoc, List.singleton_append]

/-- A pass writes a span as one of the other pattern and goes on behind its closing character. -/
theorem rule_eq (p : Pattern) (ahead : List Char) :
    p.rule ahead = (p.find? ahead).map fun s ↦ ⟨p.turned.text s, (p.text s).length⟩ := by
  cases p with
  | voice | braced =>
    rw [rule, find?, Option.map_map]
    refine congrArg (Option.map · _) (funext fun body ↦ ?_)
    simp [text, turned, opening, middle, closing]
  | ruby | annotated =>
    rw [rule, find?, Option.map_map]
    refine congrArg (Option.map · _) (funext fun found ↦ ?_)
    simp [text, turned, opening, middle, closing]
    omega

theorem starts_of_find? (h : p.find? ahead = some s) : p.Starts s ahead := by
  cases p with
  | voice =>
    obtain ⟨body, hbody, rfl⟩ := Option.map_eq_some_iff.1 h
    obtain ⟨rest, after, rfl, hrun⟩ := voice?_eq_some_iff.1 hbody
    obtain ⟨rfl, hne, hx, -⟩ := runUntil?_eq_some_iff.1 hrun
    exact ⟨⟨⟨hne, hx⟩, rfl⟩, after, text_append ..⟩
  | ruby =>
    obtain ⟨⟨base, gloss⟩, hfound, rfl⟩ := Option.map_eq_some_iff.1 h
    obtain ⟨rest, rfl, hfrom⟩ := ruby?_eq_some_iff.1 hfound
    obtain ⟨more, after, rfl, hne, hmore, hgloss, rfl⟩ := rubyFrom_eq_some hfrom
    exact ⟨⟨⟨hne, hmore⟩, hgloss⟩, after, text_append ..⟩
  | braced =>
    obtain ⟨body, hbody, rfl⟩ := Option.map_eq_some_iff.1 h
    obtain ⟨rest, after, rfl, hrun⟩ := braced?_eq_some_iff.1 hbody
    obtain ⟨rfl, hne, hx, -⟩ := runUntil?_eq_some_iff.1 hrun
    exact ⟨⟨⟨hne, hx⟩, rfl⟩, after, text_append ..⟩
  | annotated =>
    obtain ⟨⟨base, gloss⟩, hfound, rfl⟩ := Option.map_eq_some_iff.1 h
    obtain ⟨rest, between, after, rfl, hbase, hgloss⟩ := annotated?_eq_some_iff.1 hfound
    obtain ⟨rfl, hne, hx, -⟩ := runUntil?_eq_some_iff.1 hbase
    obtain ⟨rfl, hne', hx', -⟩ := runUntil?_eq_some_iff.1 hgloss
    exact ⟨⟨⟨hne, hx⟩, hne', hx'⟩, after, text_append ..⟩

/-- Where a span starts, one is found that is no longer. -/
theorem exists_find?_of_starts (h : p.Starts other ahead) :
    ∃ s, p.find? ahead = some s ∧ s.base.length ≤ other.base.length ∧
      (s.base.length = other.base.length → s.gloss.length ≤ other.gloss.length) := by
  obtain ⟨base, gloss⟩ := other
  obtain ⟨hallows, after, rfl⟩ := h
  cases p with
  | voice =>
    obtain ⟨hbase, rfl⟩ := hallows
    obtain ⟨body, rest, hrun, hle⟩ := exists_runUntil? hbase null after
    have hbody : voice? (voice.text ⟨base, []⟩ ++ after) = some body :=
      voice?_eq_some_iff.2 ⟨_, rest, text_append .., hrun⟩
    exact ⟨⟨body, []⟩, by rw [find?, hbody]; rfl, hle, fun _ ↦ Nat.le_refl _⟩
  | ruby =>
    obtain ⟨⟨hne, hmore⟩, hgloss⟩ := hallows
    obtain ⟨found, note, hfrom, hbase, hnote⟩ :=
      exists_rubyFrom hmore hgloss [] after (.inr hne)
    have hfound : ruby? (ruby.text ⟨base, gloss⟩ ++ after) = some (found, note) :=
      ruby?_eq_some_iff.2 ⟨_, text_append .., hfrom⟩
    rw [List.length_nil, Nat.zero_add] at hbase hnote
    exact ⟨⟨found, note⟩, by rw [find?, hfound]; rfl, hbase, hnote⟩
  | braced =>
    obtain ⟨hbase, rfl⟩ := hallows
    obtain ⟨body, rest, hrun, hle⟩ := exists_runUntil? hbase '}' after
    have hbody : braced? (braced.text ⟨base, []⟩ ++ after) = some body :=
      braced?_eq_some_iff.2 ⟨_, rest, text_append .., hrun⟩
    exact ⟨⟨body, []⟩, by rw [find?, hbody]; rfl, hle, fun _ ↦ Nat.le_refl _⟩
  | annotated =>
    obtain ⟨hbase, hgloss⟩ := hallows
    -- a base without brackets ends at the first one
    have hbracket : runUntil? ['[', ']'] ']' (base ++ ']' :: '(' :: (gloss ++ ')' :: after)) =
        some (base, '(' :: (gloss ++ ')' :: after)) :=
      runUntil?_append hbase.1 (fun d hd hmem ↦ hbase.2 d hmem hd) fun hmem ↦
        hbase.2 ']' hmem (by simp)
    obtain ⟨note, rest, hnote, hle⟩ := exists_runUntil? hgloss ')' after
    have hfound : annotated? (annotated.text ⟨base, gloss⟩ ++ after) = some (base, note) :=
      annotated?_eq_some_iff.2 ⟨_, _, rest, text_append .., hbracket, hnote⟩
    exact ⟨⟨base, note⟩, by rw [find?, hfound]; rfl, Nat.le_refl _, fun _ ↦ hle⟩

theorem find?_isSome_iff : (p.find? ahead).isSome ↔ ∃ s, p.Starts s ahead := by
  rw [Option.isSome_iff_exists]
  constructor
  · rintro ⟨s, h⟩
    exact ⟨s, starts_of_find? h⟩
  · rintro ⟨other, h⟩
    obtain ⟨s, hs, -⟩ := exists_find?_of_starts h
    exact ⟨s, hs⟩

/-- Spans that start at one place are told apart by their lengths. -/
theorem Starts.base_eq (h : p.Starts s ahead) (h' : p.Starts other ahead)
    (hlen : s.base.length = other.base.length) : s.base = other.base := by
  obtain ⟨-, after, rfl⟩ := h
  obtain ⟨-, after', he⟩ := h'
  rw [text_append, text_append, List.append_cancel_left_eq] at he
  exact (List.append_inj he hlen.symm).1.symm

theorem Starts.eq (h : p.Starts s ahead) (h' : p.Starts other ahead)
    (hbase : s.base = other.base) (hlen : s.gloss.length = other.gloss.length) : s = other := by
  obtain ⟨base, gloss⟩ := s
  obtain ⟨base', gloss'⟩ := other
  obtain rfl : base = base' := hbase
  obtain ⟨-, after, rfl⟩ := h
  obtain ⟨-, after', he⟩ := h'
  rw [text_append, text_append, List.append_cancel_left_eq] at he
  have hgloss := List.append_cancel_left (List.append_cancel_left he)
  exact congrArg (Span.mk base) (List.append_inj hgloss hlen.symm).1.symm

theorem find?_eq_some_iff : p.find? ahead = some s ↔ p.Shortest s ahead := by
  constructor
  · intro h
    refine ⟨starts_of_find? h, fun other hother ↦ ?_⟩
    obtain ⟨found, hfound, hbase, hgloss⟩ := exists_find?_of_starts hother
    obtain rfl : s = found := Option.some.inj (h.symm.trans hfound)
    exact ⟨hbase, fun he ↦ hgloss (congrArg List.length he.symm)⟩
  · rintro ⟨hs, hshortest⟩
    obtain ⟨found, hfound, hbase, hgloss⟩ := exists_find?_of_starts hs
    have hstarts := starts_of_find? hfound
    obtain ⟨hbase', hgloss'⟩ := hshortest found hstarts
    have hlen := Nat.le_antisymm hbase hbase'
    have heq := hstarts.base_eq hs hlen
    rw [hfound, hstarts.eq hs heq (Nat.le_antisymm (hgloss hlen) (hgloss' heq))]

/-- A closing character in the first place is part of the body. -/
example : voice.find? [bell, '\x08', null, null] = some ⟨[null], []⟩ := by decide

/-- No gloss can follow the first line feed, so the base goes on to the second. -/
example : ruby.find? [bell, '\x01', 'a', '\n', '\n', 'b', null] = some ⟨['a', '\n'], ['b']⟩ := by
  decide

end Pattern

end NovelScript.Markup
