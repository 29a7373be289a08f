import Mathlib.Logic.Function.Iterate
import NovelScript.Proofs.Markup.Matching

/-!
Rewriting the spans of a text. A text is cut from the left into spans, each the shortest where it
starts, and characters where none starts; there is one way to do so. A pass rewrites the spans of
that cut and copies each character once (`rule_shortest`).
-/

namespace NovelScript.Markup

open Text

inductive Slice where
  | char (c : Char)
  | span (s : Span)
  deriving DecidableEq, Repr

namespace Slice

def span? : Slice → Option Span
  | char _ => none
  | span s => some s

def source (p : Pattern) : Slice → List Char
  | char c => [c]
  | span s => p.text s

def rewritten (p : Pattern) : Slice → List Char
  | char c => [c]
  | span s => p.turned.text s

theorem length_source_pos (p : Pattern) (slice : Slice) : 0 < (slice.source p).length := by
  cases slice with
  | char c => exact Nat.one_pos
  | span s =>
    rw [source, Pattern.length_text]
    omega

theorem eq_of_span?_eq {p : Pattern} {slice other : Slice} {a b : List Char}
    (h : slice.span? = other.span?) (he : slice.source p ++ a = other.source p ++ b) :
    slice = other ∧ a = b := by
  cases slice with
  | char c =>
    cases other with
    | char d =>
      obtain ⟨rfl, rfl⟩ := List.cons.inj he
      exact ⟨rfl, rfl⟩
    | span s => cases h
  | span s =>
    cases other with
    | char d => cases h
    | span s' =>
      obtain rfl := Option.some.inj h
      exact ⟨rfl, List.append_cancel_left he⟩

end Slice

/-- One round of the loop of a pass: the place that it has come to, and what is written so far. -/
def round (rule : Rule) (text : List Char) : Nat × List Char → Nat × List Char
  | (place, written) =>
    match rule (text.drop place), text[place]? with
    | some r, _ => (place + r.replaced, written ++ r.written)
    | none, some c => (place + 1, written ++ [c])
    | none, none => (place, written)

namespace Pattern

/-- From the left, the shortest span wherever one starts. -/
def Cuts (p : Pattern) : List Slice → Prop
  | [] => True
  | .char c :: later =>
    (¬∃ s, p.Starts s (c :: later.flatMap (·.source p))) ∧ p.Cuts later
  | .span s :: later => p.Shortest s (p.text s ++ later.flatMap (·.source p)) ∧ p.Cuts later

variable {p : Pattern} {slice : Slice} {slices later : List Slice}

theorem cuts_cons_iff : p.Cuts (slice :: later) ↔
    p.find? (slice.source p ++ later.flatMap (·.source p)) = slice.span? ∧ p.Cuts later := by
  cases slice with
  | char c =>
    rw [Cuts, ← find?_isSome_iff, Option.not_isSome_iff_eq_none]
    rfl
  | span s =>
    rw [Cuts, ← find?_eq_some_iff]
    rfl

theorem exists_cuts (p : Pattern) (text : List Char) :
    ∃ slices, p.Cuts slices ∧ slices.flatMap (·.source p) = text := by
  induction hn : text.length using Nat.strongRecOn generalizing text with
  | ind n ih =>
    cases text with
    | nil => exact ⟨[], trivial, rfl⟩
    | cons c rest =>
      -- what stands here is a span or the next character
      obtain ⟨slice, after, htext, hspan⟩ : ∃ (slice : Slice) (after : List Char),
          c :: rest = slice.source p ++ after ∧ p.find? (c :: rest) = slice.span? := by
        cases hfound : p.find? (c :: rest) with
        | none => exact ⟨.char c, rest, rfl, rfl⟩
        | some s =>
          obtain ⟨-, after, he⟩ := starts_of_find? hfound
          exact ⟨.span s, after, he.symm, rfl⟩
      have hpos := slice.length_source_pos p
      have hlen := congrArg List.length htext
      rw [List.length_append] at hlen
      obtain ⟨later, hcuts, rfl⟩ := ih after.length (by omega) after rfl
      refine ⟨slice :: later, cuts_cons_iff.2 ⟨?_, hcuts⟩, htext.symm⟩
      rwa [← htext]

theorem Cuts.unique {others : List Slice} (h : p.Cuts slices) (h' : p.Cuts others)
    (he : slices.flatMap (·.source p) = others.flatMap (·.source p)) : slices = others := by
  have hne : ∀ (slice : Slice) (after : List Char), [] ≠ slice.source p ++ after := by
    intro slice after hnil
    have hpos := slice.length_source_pos p
    rw [(List.append_eq_nil_iff.1 hnil.symm).1] at hpos
    cases hpos
  induction slices generalizing others with
  | nil =>
    cases others with
    | nil => rfl
    | cons other later => exact absurd he (hne other _)
  | cons slice later ih =>
    cases others with
    | nil => exact absurd he.symm (hne slice _)
    | cons other later' =>
      obtain ⟨hspan, hlater⟩ := cuts_cons_iff.1 h
      obtain ⟨hspan', hlater'⟩ := cuts_cons_iff.1 h'
      rw [List.flatMap_cons, List.flatMap_cons] at he
      rw [he, hspan'] at hspan
      obtain ⟨rfl, hrest⟩ := Slice.eq_of_span?_eq hspan.symm he
      rw [ih hlater hlater' hrest]

/-- What a pass does with the first slice of a cut. -/
theorem rule_source (h : p.Cuts (slice :: later)) :
    p.rule (slice.source p ++ later.flatMap (·.source p)) =
      slice.span?.map fun s ↦ ⟨p.turned.text s, (p.text s).length⟩ := by
  rw [rule_eq, (cuts_cons_iff.1 h).1]

theorem substitute_cons (h : p.Cuts (slice :: later)) :
    substitute p.rule (slice.source p ++ later.flatMap (·.source p)) =
      slice.rewritten p ++ substitute p.rule (later.flatMap (·.source p)) := by
  cases slice with
  | char c => exact substitute_of_none (rule_source h)
  | span s =>
    have hrule : p.rule (p.text s ++ later.flatMap (·.source p)) =
        some ⟨p.turned.text s, (p.text s).length⟩ := rule_source h
    have hpos : 0 < (p.text s).length := (Slice.span s).length_source_pos p
    obtain ⟨c, rest, htext⟩ := List.exists_cons_of_length_pos hpos
    rw [htext, List.cons_append] at hrule
    rw [Slice.source, htext, List.cons_append, substitute_of_some hrule]
    simp [Slice.rewritten]

theorem substitute_source (h : p.Cuts slices) :
    substitute p.rule (slices.flatMap (·.source p)) = slices.flatMap (·.rewritten p) := by
  induction slices with
  | nil => rfl
  | cons slice later ih =>
    rw [List.flatMap_cons, List.flatMap_cons, substitute_cons h, ih (cuts_cons_iff.1 h).2]

/-- A round goes from one slice to the next. -/
theorem round_cons (h : p.Cuts (slice :: later)) (before written : List Char) :
    round p.rule (before ++ (slice.source p ++ later.flatMap (·.source p)))
        (before.length, written) =
      ((before ++ slice.source p).length, written ++ slice.rewritten p) := by
  have hrule := rule_source h
  rw [round, List.drop_left, hrule, List.getElem?_append_right (Nat.le_refl _), Nat.sub_self]
  cases slice with
  | char c => simp [Slice.span?, Slice.source, Slice.rewritten]
  | span s => simp [Slice.span?, Slice.source, Slice.rewritten]

/-- The loop ends after as many rounds as there are slices, with all of them rewritten. -/
theorem rounds_source (h : p.Cuts slices) (before written : List Char) :
    (round p.rule (before ++ slices.flatMap (·.source p)))^[slices.length]
        (before.length, written) =
      ((before ++ slices.flatMap (·.source p)).length,
        written ++ slices.flatMap (·.rewritten p)) := by
  induction slices generalizing before written with
  | nil => simp
  | cons slice later ih =>
    rw [List.length_cons, Function.iterate_succ_apply, List.flatMap_cons, List.flatMap_cons,
      round_cons h, ← List.append_assoc, ← List.append_assoc, ih (cuts_cons_iff.1 h).2]

/-- A pass finds a span at a place just where one starts, and then the shortest, and goes on
directly behind it. So its loop ends, with the text cut into the spans found and the characters
between them, each span rewritten and each character copied. -/
theorem rule_shortest (p : Pattern) (text : List Char) :
    (∀ place, ((p.rule (text.drop place)).isSome ↔ ∃ s, p.Starts s (text.drop place)) ∧
      ∀ r, p.rule (text.drop place) = some r →
        ∃ s, p.Shortest s (text.drop place) ∧ r.written = p.turned.text s ∧
          place < place + r.replaced ∧
          text.take (place + r.replaced) = text.take place ++ p.text s) ∧
      ∃ slices, (p.Cuts slices ∧ slices.flatMap (·.source p) = text) ∧
        (∀ others, p.Cuts others → others.flatMap (·.source p) = text → others = slices) ∧
        (round p.rule text)^[slices.length] (0, []) =
          (text.length, slices.flatMap (·.rewritten p)) ∧
        substitute p.rule text = slices.flatMap (·.rewritten p) := by
  refine ⟨fun place ↦ ⟨?_, fun r hr ↦ ?_⟩, ?_⟩
  · rw [rule_eq, Option.isSome_map, find?_isSome_iff]
  · rw [rule_eq] at hr
    obtain ⟨s, hs, rfl⟩ := Option.map_eq_some_iff.1 hr
    obtain ⟨-, after, hafter⟩ := starts_of_find? hs
    refine ⟨s, find?_eq_some_iff.1 hs, rfl, ?_, ?_⟩
    · exact Nat.lt_add_of_pos_right ((Slice.span s).length_source_pos p)
    · dsimp only
      rw [List.take_add, ← hafter, List.take_left]
  · obtain ⟨slices, hcuts, rfl⟩ := p.exists_cuts text
    refine ⟨slices, ⟨hcuts, rfl⟩, fun others ho he ↦ ho.unique hcuts he, ?_, ?_⟩
    · exact rounds_source hcuts [] []
    · exact substitute_source hcuts

end Pattern

end NovelScript.Markup
