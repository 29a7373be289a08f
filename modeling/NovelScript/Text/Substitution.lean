/-!
Replacing parts of a text, from left to right. A rule looks at what lies ahead and either leaves
the next character alone or says what to write and how many characters that stands for.
-/

namespace NovelScript.Text

structure Substitution where
  written : List Char
  /-- The number of characters replaced, counted as one if it is zero. -/
  replaced : Nat

abbrev Rule := List Char → Option Substitution

/-- Goes on where `skip` more characters are already replaced. -/
def substituteAfter (rule : Rule) : Nat → List Char → List Char
  | _, [] => []
  | skip + 1, _ :: rest => substituteAfter rule skip rest
  | 0, c :: rest =>
    match rule (c :: rest) with
    | some r => r.written ++ substituteAfter rule (r.replaced - 1) rest
    | none => c :: substituteAfter rule 0 rest

def substitute (rule : Rule) (text : List Char) : List Char := substituteAfter rule 0 text

/-- Every occurrence of `old`, found from the left without overlap, becomes `new`. -/
def replace (old new text : List Char) : List Char :=
  substitute (fun ahead ↦ if old.isPrefixOf ahead then some ⟨new, old.length⟩ else none) text

theorem substituteAfter_eq_drop (rule : Rule) (skip : Nat) (text : List Char) :
    substituteAfter rule skip text = substitute rule (text.drop skip) := by
  induction text generalizing skip with
  | nil => cases skip <;> rfl
  | cons c rest ih =>
    cases skip with
    | zero => rfl
    | succ skip => simpa only [substituteAfter, List.drop_succ_cons] using ih skip

theorem substitute_of_none {rule : Rule} {c : Char} {rest : List Char}
    (h : rule (c :: rest) = none) : substitute rule (c :: rest) = c :: substitute rule rest := by
  simp only [substitute, substituteAfter, h]

theorem substitute_of_some {rule : Rule} {c : Char} {rest : List Char} {r : Substitution}
    (h : rule (c :: rest) = some r) :
    substitute rule (c :: rest) = r.written ++ substitute rule (rest.drop (r.replaced - 1)) := by
  rw [← substituteAfter_eq_drop]
  simp only [substitute, substituteAfter, h]

end NovelScript.Text
