import NovelScript.Markup.Message

/-!
Rewriting a text part by part. A pass turns a part into another if it does so whatever follows;
such passes can be put one after the other, and such parts side by side.
-/

namespace NovelScript.Text

/-- The pass rewrites this part in the same way, whatever comes after it. -/
def Turns (pass : List Char → List Char) (part written : List Char) : Prop :=
  ∀ rest, pass (part ++ rest) = written ++ pass rest

namespace Turns

variable {pass pass' : List Char → List Char} {a b c d : List Char}

theorem nil : Turns pass [] [] := fun _ ↦ rfl

theorem append (h : Turns pass a b) (h' : Turns pass c d) : Turns pass (a ++ c) (b ++ d) := by
  intro rest
  rw [List.append_assoc, h, h', List.append_assoc]

theorem comp (h : Turns pass a b) (h' : Turns pass' b c) :
    Turns (fun text ↦ pass' (pass text)) a c := by
  intro rest
  dsimp only
  rw [h, h']

theorem flatMap {α : Type} {f g : α → List Char} {parts : List α}
    (h : ∀ p ∈ parts, Turns pass (f p) (g p)) : Turns pass (parts.flatMap f) (parts.flatMap g) := by
  induction parts with
  | nil => exact nil
  | cons p later ih =>
    rw [List.flatMap_cons, List.flatMap_cons]
    exact (h p (by simp)).append (ih fun q hq ↦ h q (by simp [hq]))

theorem ofChars {f : Char → List Char} (h : ∀ c ∈ a, Turns pass [c] (f c)) :
    Turns pass a (a.flatMap f) := by
  have hf := flatMap (f := fun c ↦ [c]) (g := f) h
  rwa [List.flatMap_singleton'] at hf

theorem copy (h : ∀ c ∈ a, Turns pass [c] [c]) : Turns pass a a := by
  have hf := ofChars h
  rwa [List.flatMap_singleton'] at hf

/-- A pass that looks only at places with a certain character copies all other parts. -/
theorem copy_of_not_mem {sign : Char} (hpass : ∀ c, c ≠ sign → Turns pass [c] [c])
    (h : sign ∉ a) : Turns pass a a := by
  apply copy
  intro c hc
  exact hpass c fun he ↦ h (he ▸ hc)

theorem whole (h : Turns pass a b) (hnil : pass [] = []) : pass a = b := by
  have hw := h []
  rwa [List.append_nil, hnil, List.append_nil] at hw

end Turns

theorem turns_of_none {rule : Rule} {c : Char} (h : ∀ rest, rule (c :: rest) = none) :
    Turns (substitute rule) [c] [c] :=
  fun rest ↦ substitute_of_none (h rest)

theorem turns_of_some {rule : Rule} {c : Char} {later written : List Char}
    (h : ∀ rest, rule (c :: (later ++ rest)) = some ⟨written, later.length + 1⟩) :
    Turns (substitute rule) (c :: later) written := by
  intro rest
  have hs := substitute_of_some (h rest)
  rwa [Nat.add_sub_cancel, List.drop_left] at hs

theorem replace_turns_copy {first c : Char} {old new : List Char} (h : c ≠ first) :
    Turns (replace (first :: old) new) [c] [c] := by
  refine turns_of_none fun rest ↦ if_neg fun hp ↦ h ?_
  exact (List.cons_prefix_cons.1 (List.isPrefixOf_iff_prefix.1 hp)).1.symm

theorem mem_of_mem_substitute {rule : Rule} {c : Char}
    (hrule : ∀ ahead r, rule ahead = some r → c ∉ r.written) {text : List Char}
    (h : c ∈ substitute rule text) : c ∈ text := by
  have hafter : ∀ skip, c ∈ substituteAfter rule skip text → c ∈ text := by
    clear h
    induction text with
    | nil => exact fun _ h ↦ h
    | cons d rest ih =>
      intro skip h
      cases skip with
      | succ skip => exact List.mem_cons_of_mem _ (ih skip h)
      | zero =>
        rw [substituteAfter] at h
        split at h
        · rename_i r hr
          rcases List.mem_append.1 h with h | h
          · exact absurd h (hrule _ r hr)
          · exact List.mem_cons_of_mem _ (ih _ h)
        · rcases List.mem_cons.1 h with rfl | h
          · exact List.mem_cons_self
          · exact List.mem_cons_of_mem _ (ih _ h)
  exact hafter 0 h

theorem not_mem_replace {c : Char} {old new text : List Char} (hnew : c ∉ new) (h : c ∉ text) :
    c ∉ replace old new text := by
  refine fun hc ↦ h (mem_of_mem_substitute (fun ahead r hr ↦ ?_) hc)
  split at hr <;> cases hr
  exact hnew

theorem replace_single_turns (d : Char) (new : List Char) : Turns (replace [d] new) [d] new :=
  turns_of_some fun rest ↦ if_pos (by simp)

theorem replace_single_eq_flatMap (d : Char) (new text : List Char) :
    replace [d] new text = text.flatMap fun c ↦ if c = d then new else [c] := by
  refine (Turns.ofChars fun c _ ↦ ?_).whole rfl
  by_cases hc : c = d
  · rw [if_pos hc, hc]
    exact replace_single_turns d new
  · rw [if_neg hc]
    exact replace_turns_copy hc

theorem not_mem_replace_single {d : Char} {new : List Char} (h : d ∉ new) (text : List Char) :
    d ∉ replace [d] new text := by
  rw [replace_single_eq_flatMap]
  intro hd
  obtain ⟨c, -, hc⟩ := List.mem_flatMap.1 hd
  split at hc
  · exact h hc
  · rename_i hne
    exact hne (List.mem_singleton.1 hc).symm

end NovelScript.Text
